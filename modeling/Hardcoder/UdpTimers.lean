import Hardcoder.UdpReceive
import Hardcoder.UdpInputBounds

/-! Timers and packets: every unacknowledged packet has its event in the timer list
once, until an event comes due whose packet was sent as often as allowed. -/

namespace Hardcoder.UDP
open Stream Runs Relation
set_option autoImplicit false

/-- The sender waits for an acknowledgement through this event. -/
def Sender.live (ss : Sender) : EventId → Bool
  | .fin _ => false
  | .syn _ => ss.status = .SYN_SENT
  | .slot _ i => (ss.packets i).isSome

theorem Sender.Retimed.live {ss ss' : Sender} (h : ss.Retimed ss') (e : EventId) :
    ss'.live e = ss.live e := by
  cases e with
  | fin a => rfl
  | syn a => simp only [Sender.live, h.status]
  | slot a i => simp only [Sender.live, h.same.packets]

/-- Giving a slot back ends the wait of its event only. -/
theorem Sender.live_clear (ss : Sender) {addr : SockAddr} {i : Slot} {x : EventId}
    (haddr : x.addr = addr) (hx : x ≠ .slot addr i) : (ss.clear addr i).live x = ss.live x := by
  cases x with
  | fin a => rfl
  | syn a => rfl
  | slot a j =>
    obtain rfl : a = addr := haddr
    have hj : j ≠ i := fun hj => hx (by rw [hj])
    simp only [Sender.live, Sender.packets_clear, Function.update_of_ne hj]

theorem Sender.live_open (ss : Sender) {addr : SockAddr} {x : EventId} (haddr : x.addr = addr)
    (hx : x ≠ .syn addr) : { ss with status := .OPEN }.live x = ss.live x := by
  cases x with
  | fin a => rfl
  | syn a => exact absurd (congrArg EventId.syn haddr) hx
  | slot a i => rfl

/-- The packets numbered next are found in the slots they are put into. -/
def numbersFresh : Window → BitVec 32 → List UdpPkg → Bool
  | _, _, [] => true
  | window, seq, pkg :: queue =>
    (checkEmptyWindow window (seq + 1)).all fun i =>
      let window := Function.update window i (some (pkg.stamp PACKAGE_DATA (seq + 1)))
      getWindowBySeq window (seq + 1) = some i && numbersFresh window (seq + 1) queue

def Sender.Fresh (ss : Sender) : Prop := numbersFresh ss.packets ss.seq ss.dataQueue = true

instance (ss : Sender) : Decidable ss.Fresh := inferInstanceAs (Decidable (_ = true))

theorem Sender.Fresh.retimed {ss ss' : Sender} (hfresh : ss.Fresh) (h : ss.Retimed ss') :
    ss'.Fresh := by
  rw [Sender.Fresh, h.same.packets, h.seq, h.dataQueue]
  exact hfresh

namespace Udp

def live (u : Udp) (e : EventId) : Bool := (u.m_mapSender.get? e.addr).any fun ss => ss.live e

/-- One for the event, zero for the others. -/
def single (e x : EventId) : Int := if e = x then 1 else 0

/-- The timer list holds the live events once each, but for a surplus still to be put
in or taken out. -/
def Timed (u : Udp) (owed : EventId → Int) : Prop :=
  ∀ e, (u.m_eventTimerList.count e : Int) + owed e = if u.live e then 1 else 0

/-- The property at the loop head. -/
def NoOrphan (u : Udp) : Prop :=
  ∀ addr ss, u.m_mapSender.get? addr = some ss →
    (∀ i, (ss.packets i).isSome → u.m_eventTimerList.count (.slot addr i) = 1) ∧
    (ss.status = .SYN_SENT → .syn addr ∈ u.m_eventTimerList)

theorem live_eq {u : Udp} {addr : SockAddr} {ss : Sender} {e : EventId}
    (hss : u.m_mapSender.get? addr = some ss) (he : e.addr = addr) : u.live e = ss.live e := by
  subst he
  simp [live, hss]

theorem live_schedule (env : Env) {u : Udp} {e : EventId} {ss : Sender}
    (hss : u.m_mapSender.get? e.addr = some ss) (x : EventId) :
    (u.schedule env e.addr e).live x = u.live x := by
  unfold Udp.live
  by_cases ha : x.addr = e.addr
  · obtain ⟨ss', hss', hretimed⟩ := get?_schedule_self env u e.addr e hss
    rw [ha, hss', hss]
    exact hretimed.live x
  · rw [get?_schedule_of_ne env u e.addr e ha]

namespace Timed
variable {u : Udp} {owed owed' : EventId → Int}

theorem congr {v : Udp} (h : Timed u owed) (hsender : v.m_mapSender = u.m_mapSender)
    (hlist : v.m_eventTimerList = u.m_eventTimerList) : Timed v owed := by
  intro e
  have hlive : v.live e = u.live e := by rw [live, live, hsender]
  rw [hlist, hlive]
  exact h e

theorem of_eq (h : Timed u owed) (howed : ∀ e, owed e = owed' e) : Timed u owed' :=
  funext howed ▸ h

theorem set (h : Timed u owed) {addr : SockAddr} {ss : Sender}
    (howed : ∀ e, e.addr = addr →
      owed' e = owed e + (if ss.live e then 1 else 0) - if u.live e then 1 else 0)
    (hother : ∀ e, e.addr ≠ addr → owed' e = owed e) :
    Timed { u with m_mapSender := u.m_mapSender.set addr ss } owed' := by
  intro e
  have hbal := h e
  by_cases ha : e.addr = addr
  · have hlive : live { u with m_mapSender := u.m_mapSender.set addr ss } e = ss.live e := by
      rw [live, ha, SortedMap.get?_set_self]
      rfl
    rw [hlive, howed e ha]
    dsimp only
    omega
  · have hlive : live { u with m_mapSender := u.m_mapSender.set addr ss } e = u.live e := by
      rw [live, live, SortedMap.get?_set_of_ne _ ha]
    rw [hlive, hother e ha]
    exact hbal

theorem modifySender (h : Timed u 0) {addr : SockAddr} {ss : Sender} {f : Sender → Sender}
    (hss : u.m_mapSender.get? addr = some ss)
    (hlive : ∀ e, e.addr = addr → (f ss).live e = ss.live e) : Timed (u.modifySender addr f) 0 := by
  rw [modifySender_eq_set u f hss]
  refine h.set (fun e ha => ?_) fun e ha => rfl
  rw [hlive e ha, live_eq hss ha]
  exact (add_sub_cancel_right _ _).symm

theorem schedule (h : Timed u owed) (env : Env) {e : EventId} {ss : Sender}
    (hss : u.m_mapSender.get? e.addr = some ss) :
    Timed (u.schedule env e.addr e) fun x => owed x - single e x := by
  intro x
  have hbal := h x
  rw [live_schedule env hss, count_schedule]
  unfold single
  push_cast
  omega

theorem delete (h : Timed u owed) {e : EventId} (he : e ∈ u.m_eventTimerList) :
    Timed (u.deleteTimeoutEvent e) fun x => owed x + single e x := by
  intro x
  have hbal := h x
  have hpos := List.count_pos_iff.mpr he
  by_cases hx : e = x
  · subst hx
    change ((u.m_eventTimerList.erase e).count e : Int) + (owed e + single e e) = _
    rw [List.count_erase_self, single, if_pos rfl]
    change _ = if u.live e then (1 : Int) else 0
    omega
  · change ((u.m_eventTimerList.erase e).count x : Int) + (owed x + single e x) = _
    rw [List.count_erase_of_ne (Ne.symm hx), single, if_neg hx, add_zero]
    exact hbal

theorem retire (h : Timed u 0) {e : EventId} {ss : Sender} {f : Sender → Sender}
    (hss : u.m_mapSender.get? e.addr = some ss) (hlive : ss.live e = true)
    (hself : (f ss).live e = false)
    (hother : ∀ x, x.addr = e.addr → x ≠ e → (f ss).live x = ss.live x) :
    Timed ((u.deleteTimeoutEvent e).modifySender e.addr f) 0 := by
  have hbal := h e
  rw [live_eq hss rfl, if_pos hlive, Pi.zero_apply] at hbal
  have hmem : e ∈ u.m_eventTimerList := List.count_pos_iff.mp (by omega)
  have hss' : (u.deleteTimeoutEvent e).m_mapSender.get? e.addr = some ss := hss
  rw [modifySender_eq_set _ f hss']
  refine (h.delete hmem).set (fun x haddr => ?_) (fun x haddr => ?_)
  · rw [live_eq hss' haddr]
    by_cases hx : x = e
    · subst hx
      simp [single, hlive, hself]
    · rw [hother x haddr hx]
      simp [single, Ne.symm hx]
  · have hne : e ≠ x := fun heq => haddr (by rw [heq])
    simp [single, hne]

end Timed

section Passes
variable (env : Env) {u : Udp}

theorem sendPackage_timed {addr : SockAddr} {ss : Sender} {pkg : UdpPkg} {e : EventId}
    (h : Timed u (single e)) (htype : pkg.type ≠ PACKAGE_ACK)
    (hss : u.m_mapSender.get? addr = some ss) (he : eventOf ss addr pkg = .ok e) :
    Timed (u.sendPackage env addr pkg).1 0 := by
  obtain rfl := eventOf_addr he
  have hsent : Timed (u.transmit env e.addr pkg).1 (single e) := h.congr rfl rfl
  rw [sendPackage_schedule env htype hss he]
  exact (hsent.schedule env hss).of_eq fun x => sub_self _

theorem getSender_timed (h : Timed u 0) (addr : SockAddr) : Timed (u.getSender env addr) 0 := by
  unfold getSender
  cases hss : u.m_mapSender.get? addr with
  | some ss => exact h
  | none =>
    have hset : Timed { u with m_mapSender := u.m_mapSender.set addr (newSender addr) }
        (single (.syn addr)) := by
      refine h.set (fun e ha => ?_) (fun e ha => ?_)
      · have hnot : u.live e = false := by
          rw [live, ha, hss]
          rfl
        rw [hnot]
        cases e with
        | fin a => simp [single, Sender.live]
        | syn a =>
          obtain rfl : a = addr := ha
          simp [single, Sender.live, newSender]
        | slot a i => simp [single, Sender.live, newSender, Sender.packets, TimeoutEvent.new]
      · exact if_neg fun heq : EventId.syn addr = e => ha (by rw [← heq]; rfl)
    have htype : (UdpPkg.new.stamp PACKAGE_SYN 100000).type ≠ PACKAGE_ACK := by decide
    exact sendPackage_timed env hset htype (SortedMap.get?_set_self _ _ _) (eventOf_syn _ addr rfl)

theorem takeFront_timed (h : Timed u 0) : Timed (takeFront env u) 0 := by
  unfold takeFront
  split
  · exact h
  · rename_i pack rest hqueue
    have hcreate := getSender_timed env h pack.toAddr
    dsimp only
    split
    · rename_i hany
      obtain ⟨ss, hss, -⟩ := (Option.any_eq_true _ _).mp hany
      have htake : Timed ((u.getSender env pack.toAddr).modifySender pack.toAddr
          fun ss => { ss with dataQueue := pack.fragments }) 0 :=
        hcreate.modifySender hss fun e _ => by cases e <;> rfl
      exact htake.congr rfl rfl
    · exact hcreate

def Fresh (u : Udp) : Prop :=
  ∀ addr ∈ u.m_mapSender.keys, ∀ ss ∈ u.m_mapSender.get? addr, ss.Fresh

instance (u : Udp) : Decidable u.Fresh := by
  unfold Fresh
  infer_instance

theorem Number.timed {u' : Udp} (hnumber : Number env u u')
    (h : Consistent u ∧ Timed u 0 ∧ Fresh u) : Consistent u' ∧ Timed u' 0 ∧ Fresh u' := by
  obtain ⟨hconsistent, htimed, hfresh⟩ := h
  refine ⟨hconsistent.sendStep (.number hnumber), ?_⟩
  obtain ⟨hss, hqueue, hslot⟩ := hnumber
  rename_i addr ss pkg queue i
  have hnone := packets_of_checkEmptyWindow hslot
  have hnext := hfresh addr (SortedMap.mem_keys hss) ss hss
  rw [Sender.Fresh, hqueue, numbersFresh, hslot, Option.all_some, Bool.and_eq_true,
    decide_eq_true_eq] at hnext
  obtain ⟨hwindow, hrest⟩ := hnext
  have hpackets := ss.packets_number i pkg queue
  rw [← hpackets] at hwindow hrest
  have hset : Timed { u with m_mapSender := u.m_mapSender.set addr (ss.number i pkg queue) }
      (single (.slot addr i)) := by
    refine htimed.set (fun e ha => ?_) (fun e ha => ?_)
    · rw [live_eq hss ha]
      cases e with
      | fin a => rfl
      | syn a =>
        have hlive : (ss.number i pkg queue).live (.syn a) = ss.live (.syn a) := rfl
        rw [hlive]
        exact (add_sub_cancel_right _ _).symm
      | slot a j =>
        obtain rfl : a = addr := ha
        by_cases hj : j = i
        · subst hj
          simp [single, Sender.live, hpackets, hnone]
        · have hlive : (ss.number i pkg queue).live (.slot a j) = ss.live (.slot a j) := by
            simp only [Sender.live, hpackets, Function.update_of_ne hj]
          rw [hlive]
          simp [single, Ne.symm hj]
    · exact if_neg fun heq : EventId.slot addr i = e => ha (by rw [← heq]; rfl)
  have hget : SortedMap.get? (u.m_mapSender.set addr (ss.number i pkg queue)) addr =
      some (ss.number i pkg queue) := SortedMap.get?_set_self _ _ _
  have htype : (pkg.stamp PACKAGE_DATA (ss.seq + 1)).type ≠ PACKAGE_ACK := by
    rw [UdpPkg.stamp_type]
    decide
  have hevent := eventOf_data addr (UdpPkg.stamp_type pkg PACKAGE_DATA (ss.seq + 1)) hwindow
  rw [(hconsistent.senders addr ss hss).toaddr]
  refine ⟨sendPackage_timed env hset htype hget hevent, fun a _ s hs => ?_⟩
  rw [sendPackage_schedule env htype hget hevent] at hs
  obtain ⟨s₀, hs₀, hretimed⟩ := get?_schedule env _ addr (.slot addr i) hget hs
  refine Sender.Fresh.retimed ?_ hretimed
  change SortedMap.get? (u.m_mapSender.set addr (ss.number i pkg queue)) a = some s₀ at hs₀
  by_cases ha : a = addr
  · subst ha
    obtain rfl := Option.some.inj (hget.symm.trans hs₀)
    exact hrest
  · rw [SortedMap.get?_set_of_ne _ ha] at hs₀
    exact hfresh a (SortedMap.mem_keys hs₀) s₀ hs₀

theorem loopHead_timed (hconsistent : Consistent u) (h : Timed u 0)
    (hfresh : Fresh (takeFront env { u with ticks := u.ticks + 1 })) :
    Timed (u.loopHead env).1 0 := by
  have htake : Timed (takeFront env { u with ticks := u.ticks + 1 }) 0 :=
    takeFront_timed env (h.congr rfl rfl)
  have hstart : Consistent { u with ticks := u.ticks + 1 } := hconsistent.congr rfl rfl rfl
  have hfront : Consistent (takeFront env { u with ticks := u.ticks + 1 }) :=
    Runs.steps_invariant (fun hv hstep => hv.sendStep hstep) hstart (takeFront_steps env _)
  exact (@Runs.steps_invariant _ (Number env) (fun v => Consistent v ∧ Timed v 0 ∧ Fresh v)
    (fun h hstep => Number.timed env hstep h) _ _ ⟨hfront, htake, hfresh⟩
    (fillWindows_numbers env _)).2.1

/-- The due event's packet was sent as often as allowed. -/
def GivesUp (u : Udp) (e : EventId) : Prop :=
  match u.m_mapSender.get? (u.event e).toaddr, (u.event e).udpPkg with
  | some ss, some pkg =>
    isCurrent ss (u.event e) pkg e = true ∧ CONST_MAXRETRANS ≤ (u.event e).tryCount
  | _, _ => False

instance (u : Udp) (e : EventId) : Decidable (u.GivesUp e) := by
  unfold GivesUp
  split <;> infer_instance

theorem eventOf_isCurrent {ss ss' : Sender} {e : EventId} {p : UdpPkg} (hretimed : ss.Retimed ss')
    (htoaddr : (ss.event e).toaddr = e.addr) (hp : (ss.event e).udpPkg = some p)
    (hok : ss.Ok e.addr) (hcurrent : isCurrent ss (ss.event e) p e = true) :
    eventOf ss' e.addr p = .ok e := by
  obtain ⟨-, htype, -⟩ := hok.packet hp
  cases e with
  | fin a => cases hok.fin.symm.trans hp
  | syn a => exact eventOf_syn _ a htype
  | slot a i =>
    refine eventOf_data a htype ?_
    rw [hretimed.same.packets]
    rw [isCurrent, htype, EventId.type, htoaddr] at hcurrent
    simpa [PACKAGE_DATA, PACKAGE_SYN, PACKAGE_FIN, EventId.addr] using hcurrent

/-- A packet that is sent again goes back into the list under its old event. -/
theorem retry_schedule (hconsistent : Consistent u) {e : EventId} (he : e ∈ u.m_eventTimerList)
    {ss : Sender} {p : UdpPkg} (hss : u.m_mapSender.get? e.addr = some ss)
    (hp : (ss.event e).udpPkg = some p) (hcurrent : isCurrent ss (ss.event e) p e = true)
    {f : TimeoutEvent → TimeoutEvent} (hf : (f (ss.event e)).udpPkg = some p) :
    (u.modifyEvent e f).sendPackage env e.addr p =
      (((u.modifyEvent e f).transmit env e.addr p).1.schedule env e.addr e, 0) := by
  have hok := hconsistent.senders _ ss hss
  have htoaddr := hconsistent.toaddr_of_mem hss he rfl
  have hretimed := ss.updateEvent_retimed f e (hf.trans hp.symm)
  exact sendPackage_schedule env (hok.packet hp).2.2 (get?_modifySender_self u _ hss)
    (eventOf_isCurrent hretimed htoaddr hp hok hcurrent)

theorem fire_timed (hconsistent : Consistent u) (h : Timed u 0) {e : EventId}
    (he : e ∈ u.m_eventTimerList) (hcalm : ¬ u.GivesUp e)
    (hrunning : (u.fire env e).running = true) : Timed (u.fire env e) 0 := by
  have hfired := processTimeout_cases env hconsistent he
  unfold fire at hrunning ⊢
  generalize u.processTimeout env e = r at hfired hrunning ⊢
  cases hfired with
  | stop => cases hrunning
  | report hss hp hcurrent htries =>
    have htoaddr := hconsistent.toaddr_of_mem hss he rfl
    simp only [GivesUp, event_eq u hss, htoaddr, hss, hp] at hcalm
    exact absurd ⟨hcurrent, htries⟩ hcalm
  | @retry ss p hss hp hcurrent =>
    obtain ⟨f, hf⟩ : ∃ f, f = fun ev : TimeoutEvent =>
      { ev with tryCount := ev.tryCount + 1, udpPkg := some p } := ⟨_, rfl⟩
    rw [← hf]
    have hpkg : (f (ss.event e)).udpPkg = some p := by rw [hf]
    have hretimed := ss.updateEvent_retimed f e (hpkg.trans hp.symm)
    have hmodified : Timed (u.modifyEvent e f) 0 := h.modifySender hss fun x _ => hretimed.live x
    have hss' : (u.modifyEvent e f).m_mapSender.get? e.addr = some (ss.updateEvent e f) :=
      get?_modifySender_self u _ hss
    rw [retry_schedule env hconsistent he hss hp hcurrent hpkg]
    have hsent : Timed ((u.modifyEvent e f).transmit env e.addr p).1 0 := hmodified.congr rfl rfl
    refine ((hsent.schedule env hss').delete ?_).of_eq fun x => sub_add_cancel _ _
    have hcount := count_schedule env ((u.modifyEvent e f).transmit env e.addr p).1 e.addr e e
    rw [if_pos rfl] at hcount
    exact List.count_pos_iff.mp (by omega)

theorem freeSlot_timed (h : Timed u 0) {addr : SockAddr} {ss : Sender}
    (hss : u.m_mapSender.get? addr = some ss) {i : Slot} (hi : (ss.packets i).isSome) :
    Timed (u.freeSlot addr i) 0 := by
  have hretire : Timed ((u.deleteTimeoutEvent (.slot addr i)).modifySender
      (EventId.slot addr i).addr (·.clear addr i)) 0 := by
    refine h.retire hss hi ?_ fun x haddr hx => ss.live_clear haddr hx
    simp only [Sender.live, Sender.packets_clear, Function.update_self, Option.isSome_none]
  exact hretire

theorem receiveAck_timed (hconsistent : Consistent u) (h : Timed u 0) (sender : SockAddr)
    (udpPkg : UdpPkg) : Timed (u.receiveAck sender udpPkg) 0 := by
  have hacked := @receiveAck_cases u sender udpPkg hconsistent
  generalize u.receiveAck sender udpPkg = v at hacked
  cases hacked with
  | ignored => exact h
  | @opened ss hss hstatus hseq =>
    have hretire : Timed ((u.deleteTimeoutEvent (.syn sender)).modifySender
        (EventId.syn sender).addr fun ss => { ss with status := .OPEN }) 0 := by
      exact h.retire hss (by simp [Sender.live, hstatus]) rfl fun x haddr hx => ss.live_open haddr hx
    exact hretire
  | freed hss hstatus hi hmore =>
    obtain ⟨⟨p, hp, -⟩, -⟩ := getWindowBySeq_eq_some_iff.mp hi
    exact freeSlot_timed h hss (Option.isSome_iff_exists.mpr ⟨p, hp⟩)
  | finished hss hstatus hi hlast =>
    obtain ⟨⟨p, hp, -⟩, -⟩ := getWindowBySeq_eq_some_iff.mp hi
    have hfreed := freeSlot_timed h hss (Option.isSome_iff_exists.mpr ⟨p, hp⟩)
    exact hfreed.congr rfl rfl

theorem processReceive_timed (hconsistent : Consistent u) (h : Timed u 0) (sender : SockAddr)
    (d : Delivery UInt8) : Timed (u.processReceive env sender d).1 0 := by
  obtain ⟨accesses, hhandled⟩ := processReceive_cases env u sender d
  have hu : Consistent { u with accesses := accesses } := hconsistent.congr rfl rfl rfl
  have hside {p : UdpPkg} {v : Udp} (hv : ReceiveSide sender p { u with accesses := accesses } v) :
      Timed v 0 := h.congr hv.m_mapSender hv.m_eventTimerList
  generalize u.processReceive env sender d = r at hhandled
  cases hhandled with
  | ignored => exact h.congr rfl rfl
  | syn htype => exact hside (receiveSyn_side env hu htype)
  | data htype => exact hside (receiveData_side env hu htype _)
  | fin htype => exact hside (receiveFin_side env hu htype)
  | ack htype => exact receiveAck_timed hu (h.congr rfl rfl) _ _

end Passes

/-! ### Runs -/

section Runs
variable (env : Env)

/-- The packets numbered in this pass get numbers of their own, and the event that is due
may be tried once more. -/
def Calm (u : Udp) : Action → Prop
  | .send _ => True
  | .wake =>
    Fresh (takeFront env { u with ticks := u.ticks + 1 }) ∧
      ∀ e, (u.loopHead env).2 = some e → ¬ (u.loopHead env).1.GivesUp e
  | .receive _ _ => Fresh (takeFront env { u with ticks := u.ticks + 1 })

instance (u : Udp) (a : Action) : Decidable (Calm env u a) :=
  match a with
  | .send _ => .isTrue trivial
  | .wake => inferInstanceAs (Decidable (Fresh (takeFront env { u with ticks := u.ticks + 1 }) ∧
      ∀ e, (u.loopHead env).2 = some e → ¬ (u.loopHead env).1.GivesUp e))
  | .receive _ _ => inferInstanceAs (Decidable (Fresh (takeFront env { u with ticks := u.ticks + 1 })))

theorem step_timed {u u' : Udp} {a : Action}
    (h : Consistent u ∧ (u.running = true → Timed u 0)) (hcalm : Calm env u a)
    (hstep : u.step env a = some u') : Consistent u' ∧ (u'.running = true → Timed u' 0) := by
  obtain ⟨hconsistent, h⟩ := h
  refine ⟨hconsistent.step env hstep, fun hrunning => ?_⟩
  cases step_cases hstep with
  | send pack hroom => exact (h hrunning).congr rfl rfl
  | idle hwas hdue => exact loopHead_timed env hconsistent (h hwas) hcalm.1
  | fire e hwas hdue =>
    have hhead := loopHead_timed env hconsistent (h hwas) hcalm.1
    obtain ⟨he, -⟩ := Option.filter_eq_some_iff.mp hdue
    exact fire_timed env (hconsistent.loopHead env) hhead (List.mem_of_head? he) (hcalm.2 e hdue)
      hrunning
  | receive sender d hwas hdue =>
    have hhead := loopHead_timed env hconsistent (h hwas) hcalm
    have hreceive := processReceive_timed env (hconsistent.loopHead env) hhead sender d
    unfold finish
    split
    · exact hreceive.congr rfl rfl
    · exact hreceive

theorem Timed.noOrphan {u : Udp} (h : Timed u 0) : u.NoOrphan := by
  intro addr ss hss
  have hone (e : EventId) (haddr : e.addr = addr) (hlive : ss.live e = true) :
      u.m_eventTimerList.count e = 1 := by
    have hbal := h e
    rw [live_eq hss haddr, if_pos hlive, Pi.zero_apply] at hbal
    omega
  refine ⟨fun i hi => hone (.slot addr i) rfl hi, fun hstatus => List.count_pos_iff.mp ?_⟩
  rw [hone (.syn addr) rfl (by simp [Sender.live, hstatus])]
  exact one_pos

/-- In a run of calm steps every unacknowledged packet has its timer. -/
theorem noOrphan_of_calm {as : List Action} {u : Udp} (hrun : run (step env) Udp.new as = some u)
    (hcalm : Along (step env) (Calm env) Udp.new as) (hrunning : u.running = true) : u.NoOrphan := by
  have hinv := @run_invariant _ _ (step env) (Calm env)
    (fun u => Consistent u ∧ (u.running = true → Timed u 0))
    (fun h hcalm hstep => step_timed env h hcalm hstep) _ _ _
    ⟨consistent_new, fun _ e => rfl⟩ hcalm hrun
  exact (hinv.2 hrunning).noOrphan

end Runs

/-- A clock that goes on with every reading, so that timers come due. -/
def tickingEnv : Env := ⟨5, fun n => n, fun _ => 29⟩

def oneByte : SendPack := ⟨examplePeer, 1, [7], length_oneByte⟩

/-- Both packets are sent twice before the peer acknowledges them. -/
theorem noOrphan_of_calm_acknowledged : ∃ u,
    run (step tickingEnv) Udp.new [.send oneByte, .wake, .wake, .wake, .wake, .wake,
      .receive examplePeer (craft PACKAGE_ACK 100000 0 []),
      .receive examplePeer (craft PACKAGE_ACK 100001 1 [])] = some u ∧ u.NoOrphan := by
  have hrun : (run (step tickingEnv) Udp.new [.send oneByte, .wake, .wake, .wake, .wake, .wake,
      .receive examplePeer (craft PACKAGE_ACK 100000 0 []),
      .receive examplePeer (craft PACKAGE_ACK 100001 1 [])]).map (·.running) = some true := by
    decide +kernel
  obtain ⟨u, hu, hrunning⟩ := Option.map_eq_some_iff.mp hrun
  exact ⟨u, hu, noOrphan_of_calm tickingEnv hu (along_of_check (by decide +kernel)) hrunning⟩

/-- The peer never answers: after the last timeout the packet keeps its slot, and nothing
is left in the timer list. -/
theorem noOrphan_lost : ∃ u,
    run (step tickingEnv) Udp.new (.send oneByte :: List.replicate 22 .wake) = some u ∧
    u.running = true ∧ Raised.timeout examplePeer 1 ∈ u.raised ∧ ¬ u.NoOrphan := by
  have hrun : (run (step tickingEnv) Udp.new (.send oneByte :: List.replicate 22 .wake)).map
      (fun u => (u.running, u.m_eventTimerList, u.raised,
        (u.m_mapSender.get? examplePeer).map fun ss => (ss.packets (Fin.last 4)).isSome)) =
      some (true, [], [.timeout examplePeer 0, .timeout examplePeer 1], some true) := by
    decide +kernel
  obtain ⟨u, hu, heq⟩ := Option.map_eq_some_iff.mp hrun
  simp only [Prod.mk.injEq, Option.map_eq_some_iff] at heq
  obtain ⟨hrunning, hlist, hraised, ss, hss, hpacket⟩ := heq
  refine ⟨u, hu, hrunning, by simp [hraised], fun horphan => ?_⟩
  have hone := (horphan examplePeer ss hss).1 (Fin.last 4) hpacket
  rw [hlist] at hone
  cases hone

end Udp

end Hardcoder.UDP
