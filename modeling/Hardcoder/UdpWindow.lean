import Hardcoder.UdpLoop
import Mathlib.Data.List.FinRange

/-! Windows, events and the timer list: what the lookups find and what sending a
packet changes in its sender. -/

namespace Hardcoder.UDP
open Stream
set_option autoImplicit false

theorem getWindowBySeq_eq_some_iff {window : Window} {seq : BitVec 32} {i : Slot} :
    getWindowBySeq window seq = some i ↔
      (∃ p, window i = some p ∧ p.seq = seq) ∧ ∀ j < i, ∀ p, window j = some p → p.seq ≠ seq := by
  have hany (j : Slot) : (window j).any (fun p => decide (p.seq = seq)) = true ↔
      ∃ p, window j = some p ∧ p.seq = seq := by
    simp [Option.any_eq_true]
  have hlen : (List.finRange CONST_WINDOW).length = CONST_WINDOW := List.length_finRange
  rw [getWindowBySeq, List.find?_eq_some_iff_getElem]
  constructor
  · rintro ⟨hi, n, hn, rfl, hbefore⟩
    refine ⟨(hany _).mp hi, fun j hj p hp hseq => ?_⟩
    have hnot := hbefore j.val (by
      rw [List.getElem_finRange] at hj
      exact hj)
    rw [List.getElem_finRange] at hnot
    change (!(window j).any fun p => decide (p.seq = seq)) = true at hnot
    rw [(hany j).mpr ⟨p, hp, hseq⟩] at hnot
    cases hnot
  · rintro ⟨hi, hbefore⟩
    refine ⟨(hany i).mpr hi, i.val, by rw [hlen]; exact i.isLt, by simp, fun j hj => ?_⟩
    have hjlt : j < CONST_WINDOW := hj.trans i.isLt
    rw [List.getElem_finRange]
    change (!(window ⟨j, hjlt⟩).any fun p => decide (p.seq = seq)) = true
    rw [Bool.not_eq_true', ← Bool.not_eq_true, hany]
    rintro ⟨p, hp, hseq⟩
    exact hbefore ⟨j, hjlt⟩ hj p hp hseq

theorem packets_of_checkEmptyWindow {window : Window} {seq : BitVec 32} {i : Slot}
    (h : checkEmptyWindow window seq = some i) : window i = none := by
  unfold checkEmptyWindow at h
  split at h
  · cases h
  · rename_i j hj
    split at h
    · cases h
    · obtain rfl := Option.some.inj h
      have hnone := List.find?_some hj
      exact Option.isNone_iff_eq_none.mp hnone

namespace Sender
variable (ss : Sender) (f : TimeoutEvent → TimeoutEvent)

@[simp] theorem event_updateEvent_self (e : EventId) :
    (ss.updateEvent e f).event e = f (ss.event e) := by
  cases e <;> simp [updateEvent, event]

theorem event_updateEvent_of_ne {e x : EventId} (haddr : x.addr = e.addr) (h : x ≠ e) :
    (ss.updateEvent e f).event x = ss.event x := by
  cases e with
  | fin a =>
    cases x with
    | fin b => exact absurd (congrArg EventId.fin haddr) h
    | syn b => rfl
    | slot b j => rfl
  | syn a =>
    cases x with
    | fin b => rfl
    | syn b => exact absurd (congrArg EventId.syn haddr) h
    | slot b j => rfl
  | slot a i =>
    cases x with
    | fin b => rfl
    | syn b => rfl
    | slot b j =>
      obtain rfl : b = a := haddr
      have hj : j ≠ i := fun hj => h (by rw [hj])
      exact Function.update_of_ne hj _ _

theorem updateEvent_fields (e : EventId) :
    (ss.updateEvent e f).toaddr = ss.toaddr ∧ (ss.updateEvent e f).status = ss.status ∧
      (ss.updateEvent e f).seq = ss.seq ∧ (ss.updateEvent e f).dataQueue = ss.dataQueue := by
  cases e <;> exact ⟨rfl, rfl, rfl, rfl⟩

/-- The packets a sender holds, apart from when they are sent next. -/
def SamePackets (ss ss' : Sender) : Prop :=
  ∀ e, (ss'.event e).udpPkg = (ss.event e).udpPkg

theorem SamePackets.packets {ss ss' : Sender} (h : SamePackets ss ss') :
    ss'.packets = ss.packets :=
  funext fun i => h (.slot ss.toaddr i)

/-- A field that the update leaves in its event is the same in all events. -/
theorem field_updateEvent {β : Type} (field : TimeoutEvent → β) (e : EventId)
    (hf : field (f (ss.event e)) = field (ss.event e)) (x : EventId) :
    field ((ss.updateEvent e f).event x) = field (ss.event x) := by
  cases e with
  | fin a => cases x <;> first | exact hf | rfl
  | syn a => cases x <;> first | exact hf | rfl
  | slot a i =>
    cases x with
    | fin b => rfl
    | syn b => rfl
    | slot b j =>
      by_cases hj : j = i
      · subst hj
        have hself := ss.event_updateEvent_self f (.slot a j)
        exact (congrArg field hself).trans hf
      · have hother := @event_updateEvent_of_ne ss f (.slot b i) (.slot b j) rfl (by simp [hj])
        exact congrArg field hother

theorem updateEvent_samePackets (e : EventId) (hf : (f (ss.event e)).udpPkg = (ss.event e).udpPkg) :
    SamePackets ss (ss.updateEvent e f) :=
  ss.field_updateEvent f TimeoutEvent.udpPkg e hf

/-- Only when and how often events are sent differs. -/
structure Retimed (ss ss' : Sender) : Prop where
  toaddr : ss'.toaddr = ss.toaddr
  status : ss'.status = ss.status
  seq : ss'.seq = ss.seq
  dataQueue : ss'.dataQueue = ss.dataQueue
  same : SamePackets ss ss'

theorem Retimed.refl : Retimed ss ss := ⟨rfl, rfl, rfl, rfl, fun _ => rfl⟩

theorem updateEvent_retimed (e : EventId) (hf : (f (ss.event e)).udpPkg = (ss.event e).udpPkg) :
    Retimed ss (ss.updateEvent e f) :=
  have h := ss.updateEvent_fields f e
  ⟨h.1, h.2.1, h.2.2.1, h.2.2.2, updateEvent_samePackets ss f e hf⟩

end Sender

namespace Udp
variable (env : Env)

theorem count_insertEvent (timeout : EventId → Int) (e x : EventId) (xs : List EventId) :
    (insertEvent timeout e xs).count x = xs.count x + if e = x then 1 else 0 := by
  induction xs with
  | nil => simp [insertEvent, List.count_cons]
  | cons y xs ih =>
    rw [insertEvent]
    split
    · rw [List.count_cons]
      simp
    · rw [List.count_cons, ih, List.count_cons]
      omega

section Modify
variable (u : Udp) {addr : SockAddr} {ss : Sender} (f : TimeoutEvent → TimeoutEvent)

theorem event_eq {e : EventId} (h : u.m_mapSender.get? e.addr = some ss) :
    u.event e = ss.event e := by
  simp [event, h]

theorem event_modifyEvent_of_ne {e x : EventId} (h : x ≠ e) :
    (u.modifyEvent e f).event x = u.event x := by
  unfold event modifyEvent
  by_cases haddr : x.addr = e.addr
  · rw [haddr]
    cases hss : u.m_mapSender.get? e.addr with
    | none =>
      have hsame : u.modifySender e.addr (fun ss => ss.updateEvent e f) = u := by
        simp [modifySender, hss]
      rw [hsame, hss]
    | some ss =>
      rw [get?_modifySender_self u _ hss]
      exact Sender.event_updateEvent_of_ne ss f haddr h
  · rw [get?_modifySender_of_ne u _ haddr]

theorem event_modifyEvent_self {e : EventId} (h : u.m_mapSender.get? e.addr = some ss) :
    (u.modifyEvent e f).event e = f (ss.event e) := by
  unfold event modifyEvent
  rw [get?_modifySender_self u _ h]
  exact Sender.event_updateEvent_self ss f e

end Modify

section Schedule
variable (u : Udp) (addr : SockAddr) (e : EventId)

/-- The event as `schedule` leaves it. -/
def retime (ev : TimeoutEvent) : TimeoutEvent :=
  { ev with toaddr := addr, timeout := env.clock u.ticks + env.m_timeoutms }

theorem schedule_m_mapSender :
    (u.schedule env addr e).m_mapSender = (u.modifyEvent e (u.retime env addr)).m_mapSender := by
  unfold schedule addTimeoutEvent modifyEvent modifySender
  dsimp only
  cases u.m_mapSender.get? e.addr <;> rfl

theorem get?_schedule_self {ss : Sender} (h : u.m_mapSender.get? e.addr = some ss) :
    ∃ ss', (u.schedule env addr e).m_mapSender.get? e.addr = some ss' ∧ ss.Retimed ss' := by
  refine ⟨ss.updateEvent e (u.retime env addr), ?_, ss.updateEvent_retimed _ e rfl⟩
  rw [schedule_m_mapSender, modifyEvent, get?_modifySender_self u _ h]

theorem get?_schedule_of_ne {a : SockAddr} (h : a ≠ e.addr) :
    (u.schedule env addr e).m_mapSender.get? a = u.m_mapSender.get? a := by
  rw [schedule_m_mapSender, modifyEvent, get?_modifySender_of_ne u _ h]

theorem get?_schedule {ss ss' : Sender} {a : SockAddr} (h : u.m_mapSender.get? e.addr = some ss)
    (ha : (u.schedule env addr e).m_mapSender.get? a = some ss') :
    ∃ ss₀, u.m_mapSender.get? a = some ss₀ ∧ ss₀.Retimed ss' := by
  by_cases hne : a = e.addr
  · subst hne
    obtain ⟨ss₁, hss₁, hretimed⟩ := get?_schedule_self env u addr e h
    obtain rfl := Option.some.inj (ha.symm.trans hss₁)
    exact ⟨ss, h, hretimed⟩
  · exact ⟨ss', get?_schedule_of_ne env u addr e hne ▸ ha, .refl ss'⟩

theorem count_schedule (x : EventId) :
    (u.schedule env addr e).m_eventTimerList.count x =
      u.m_eventTimerList.count x + if e = x then 1 else 0 := by
  have hlist : ∀ v : Udp, (v.modifyEvent e (u.retime env addr)).m_eventTimerList = v.m_eventTimerList :=
    fun v => modifySender_m_eventTimerList v _ _
  change List.count x (insertEvent _ e (Udp.modifyEvent { u with ticks := u.ticks + 1 } e
    (u.retime env addr)).m_eventTimerList) = _
  rw [hlist, count_insertEvent]

theorem schedule_event_of_ne {x : EventId} (h : x ≠ e) :
    (u.schedule env addr e).event x = u.event x := by
  rw [event, schedule_m_mapSender]
  exact event_modifyEvent_of_ne u _ h

theorem schedule_event_self {ss : Sender} (h : u.m_mapSender.get? e.addr = some ss) :
    (u.schedule env addr e).event e = u.retime env addr (ss.event e) := by
  rw [event, schedule_m_mapSender]
  exact event_modifyEvent_self u _ h

end Schedule

theorem sendPackage_schedule {u : Udp} {addr : SockAddr} {ss : Sender} {pkg : UdpPkg} {e : EventId}
    (htype : pkg.type ≠ PACKAGE_ACK) (hss : u.m_mapSender.get? addr = some ss)
    (he : eventOf ss addr pkg = .ok e) :
    u.sendPackage env addr pkg = ((u.transmit env addr pkg).1.schedule env addr e, 0) := by
  have hss' : (u.transmit env addr pkg).1.m_mapSender.get? addr = some ss := hss
  simp only [sendPackage, if_neg htype, hss', he]

theorem sendPackage_ack {u : Udp} {addr : SockAddr} {pkg : UdpPkg} (htype : pkg.type = PACKAGE_ACK) :
    u.sendPackage env addr pkg = u.transmit env addr pkg := by
  simp only [sendPackage, if_pos htype]

theorem eventOf_syn (ss : Sender) (addr : SockAddr) {pkg : UdpPkg} (h : pkg.type = PACKAGE_SYN) :
    eventOf ss addr pkg = .ok (.syn addr) := by
  simp [eventOf, h]

theorem eventOf_data {ss : Sender} (addr : SockAddr) {pkg : UdpPkg} {i : Slot}
    (h : pkg.type = PACKAGE_DATA) (hi : getWindowBySeq ss.packets pkg.seq = some i) :
    eventOf ss addr pkg = .ok (.slot addr i) := by
  simp [eventOf, h, hi, PACKAGE_DATA, PACKAGE_SYN, PACKAGE_FIN]

end Udp

end Hardcoder.UDP
