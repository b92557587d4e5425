import Hardcoder.UdpNumbers
import Hardcoder.UdpTimers

/-! The timer list in order: sorted, without repetition, and every event in it waits for
an acknowledgement. So no timer that comes due ends the loop. -/

namespace Hardcoder.UDP
open Stream Runs Relation
set_option autoImplicit false

namespace Udp

section Insert
variable {timeout : EventId → Int} {e : EventId} {xs : List EventId}

theorem mem_insertEvent {x : EventId} : x ∈ insertEvent timeout e xs ↔ x = e ∨ x ∈ xs := by
  rw [← List.count_pos_iff, ← List.count_pos_iff, count_insertEvent]
  by_cases h : e = x
  · simp [h]
  · simp [h, Ne.symm h]

theorem nodup_insertEvent (h : xs.Nodup) (he : e ∉ xs) : (insertEvent timeout e xs).Nodup := by
  rw [List.nodup_iff_count_le_one] at h ⊢
  intro x
  rw [count_insertEvent]
  by_cases hx : e = x
  · subst hx
    rw [List.count_eq_zero_of_not_mem he, if_pos rfl]
  · rw [if_neg hx]
    exact h x

theorem sorted_insertEvent (h : xs.Pairwise fun x y => timeout x ≤ timeout y) :
    (insertEvent timeout e xs).Pairwise fun x y => timeout x ≤ timeout y := by
  induction xs with
  | nil => exact List.pairwise_singleton _ _
  | cons y xs ih =>
    obtain ⟨hy, hxs⟩ := List.pairwise_cons.mp h
    rw [insertEvent]
    split
    · rename_i hlt
      refine List.pairwise_cons.mpr ⟨fun x hx => ?_, h⟩
      rcases List.mem_cons.mp hx with rfl | hx
      · exact hlt.le
      · exact hlt.le.trans (hy x hx)
    · rename_i hle
      refine List.pairwise_cons.mpr ⟨fun x hx => ?_, ih hxs⟩
      rcases mem_insertEvent.mp hx with rfl | hx
      · exact not_lt.mp hle
      · exact hy x hx

end Insert

section Schedule
variable (env : Env)

theorem schedule_m_eventTimerList (u : Udp) (addr : SockAddr) (e : EventId) :
    (u.schedule env addr e).m_eventTimerList =
      insertEvent (fun x => ((u.schedule env addr e).event x).timeout) e u.m_eventTimerList := by
  have hlist := modifySender_m_eventTimerList { u with ticks := u.ticks + 1 }
    (fun ss => ss.updateEvent e (u.retime env addr)) e.addr
  change insertEvent _ e (Udp.modifySender _ _ _).m_eventTimerList = _
  exact congrArg (insertEvent _ e) hlist

/-- The event that is due is the first of the list, so that the old node is the one erased
behind the new one: as if it had been taken out before. -/
theorem delete_schedule {u : Udp} {e : EventId} (hhead : u.m_eventTimerList.head? = some e)
    (addr : SockAddr) :
    ((u.schedule env addr e).deleteTimeoutEvent e).m_mapSender =
        ((u.deleteTimeoutEvent e).schedule env addr e).m_mapSender ∧
      ((u.schedule env addr e).deleteTimeoutEvent e).m_eventTimerList =
        ((u.deleteTimeoutEvent e).schedule env addr e).m_eventTimerList := by
  obtain ⟨rest, hlist⟩ : ∃ rest, u.m_eventTimerList = e :: rest := List.head?_eq_some_iff.mp hhead
  have hsenders : (u.schedule env addr e).m_mapSender =
      ((u.deleteTimeoutEvent e).schedule env addr e).m_mapSender := by
    rw [schedule_m_mapSender, schedule_m_mapSender]
    simp only [modifyEvent, modifySender, deleteTimeoutEvent]
    cases u.m_mapSender.get? e.addr <;> rfl
  refine ⟨hsenders, ?_⟩
  have htimeout : (fun x => ((u.schedule env addr e).event x).timeout) =
      fun x => (((u.deleteTimeoutEvent e).schedule env addr e).event x).timeout := by
    funext x
    rw [event, event, hsenders]
  change (u.schedule env addr e).m_eventTimerList.erase e = _
  rw [schedule_m_eventTimerList, schedule_m_eventTimerList, htimeout, deleteTimeoutEvent, hlist]
  dsimp only
  rw [List.erase_cons_head, insertEvent, if_neg (lt_irrefl _), List.erase_cons_head]

end Schedule

/-- Sorted, without repetition, and what is in it waits for an acknowledgement. -/
structure Queued (u : Udp) : Prop where
  sorted : u.m_eventTimerList.Pairwise fun e x => (u.event e).timeout ≤ (u.event x).timeout
  nodup : u.m_eventTimerList.Nodup
  live : ∀ e ∈ u.m_eventTimerList, u.live e = true

theorem queued_new : Queued Udp.new := by
  refine ⟨List.Pairwise.nil, List.nodup_nil, fun e he => ?_⟩
  cases he

namespace Queued
variable {u v : Udp} {env : Env}

theorem of_events (h : Queued u) (hlist : v.m_eventTimerList = u.m_eventTimerList)
    (htimeout : ∀ e ∈ u.m_eventTimerList, (v.event e).timeout = (u.event e).timeout)
    (hlive : ∀ e ∈ u.m_eventTimerList, v.live e = u.live e) : Queued v := by
  refine ⟨?_, hlist ▸ h.nodup, fun e he => ?_⟩
  · rw [hlist]
    refine h.sorted.imp_of_mem fun {e x} he hx hle => ?_
    rwa [htimeout e he, htimeout x hx]
  · rw [hlist] at he
    rw [hlive e he]
    exact h.live e he

theorem congr (h : Queued u) (hsender : v.m_mapSender = u.m_mapSender)
    (hlist : v.m_eventTimerList = u.m_eventTimerList) : Queued v := by
  refine h.of_events hlist (fun e _ => ?_) fun e _ => ?_
  · rw [event, event, hsender]
  · rw [Udp.live, Udp.live, hsender]

theorem set (h : Queued u) {addr : SockAddr} {ss : Sender}
    (htimeout : ∀ e ∈ u.m_eventTimerList, e.addr = addr →
      (ss.event e).timeout = (u.event e).timeout)
    (hlive : ∀ e ∈ u.m_eventTimerList, e.addr = addr → ss.live e = u.live e) :
    Queued { u with m_mapSender := u.m_mapSender.set addr ss } := by
  refine h.of_events rfl (fun e he => ?_) fun e he => ?_
  · by_cases ha : e.addr = addr
    · rw [event, ha, SortedMap.get?_set_self]
      exact htimeout e he ha
    · rw [event, SortedMap.get?_set_of_ne _ ha]
      rfl
  · by_cases ha : e.addr = addr
    · rw [Udp.live, ha, SortedMap.get?_set_self]
      exact hlive e he ha
    · rw [Udp.live, SortedMap.get?_set_of_ne _ ha]
      rfl

theorem modifySender (h : Queued u) {addr : SockAddr} {ss : Sender} {f : Sender → Sender}
    (hss : u.m_mapSender.get? addr = some ss)
    (htimeout : ∀ e ∈ u.m_eventTimerList, e.addr = addr →
      ((f ss).event e).timeout = (ss.event e).timeout)
    (hlive : ∀ e ∈ u.m_eventTimerList, e.addr = addr → (f ss).live e = ss.live e) :
    Queued (u.modifySender addr f) := by
  rw [modifySender_eq_set u f hss]
  refine h.set (fun e he ha => ?_) fun e he ha => ?_
  · subst ha
    rw [event_eq u hss]
    exact htimeout e he rfl
  · rw [live_eq hss ha]
    exact hlive e he ha

theorem delete (h : Queued u) (e : EventId) : Queued (u.deleteTimeoutEvent e) :=
  ⟨h.sorted.sublist List.erase_sublist, h.nodup.erase e,
    fun x hx => h.live x (List.mem_of_mem_erase hx)⟩

theorem not_mem_delete (h : Queued u) (e : EventId) :
    e ∉ (u.deleteTimeoutEvent e).m_eventTimerList :=
  h.nodup.not_mem_erase

theorem schedule (h : Queued u) {e : EventId} {ss : Sender}
    (hss : u.m_mapSender.get? e.addr = some ss) (he : e ∉ u.m_eventTimerList)
    (hlive : ss.live e = true) : Queued (u.schedule env e.addr e) := by
  have hlist := schedule_m_eventTimerList env u e.addr e
  have hother {x : EventId} (hx : x ∈ u.m_eventTimerList) :
      (u.schedule env e.addr e).event x = u.event x := by
    refine schedule_event_of_ne env u _ _ ?_
    rintro rfl
    exact he hx
  refine ⟨?_, ?_, fun x hx => ?_⟩
  · rw [hlist]
    refine sorted_insertEvent (h.sorted.imp_of_mem fun {x y} hx hy hle => ?_)
    rwa [hother hx, hother hy]
  · rw [hlist]
    exact nodup_insertEvent h.nodup he
  · rw [live_schedule env hss]
    rw [hlist] at hx
    rcases mem_insertEvent.mp hx with rfl | hx
    · rwa [live_eq hss rfl]
    · exact h.live x hx

theorem sendPackage (h : Queued u) {addr : SockAddr} {ss : Sender} {pkg : UdpPkg} {e : EventId}
    (htype : pkg.type ≠ PACKAGE_ACK) (hss : u.m_mapSender.get? addr = some ss)
    (hevent : eventOf ss addr pkg = .ok e) (he : e ∉ u.m_eventTimerList)
    (hlive : ss.live e = true) : Queued (u.sendPackage env addr pkg).1 := by
  obtain rfl := eventOf_addr hevent
  have hsent : Queued (u.transmit env e.addr pkg).1 := h.congr rfl rfl
  rw [sendPackage_schedule env htype hss hevent]
  exact hsent.schedule hss he hlive

theorem getSender (h : Queued u) (addr : SockAddr) : Queued (u.getSender env addr) := by
  unfold Udp.getSender
  cases hss : u.m_mapSender.get? addr with
  | some ss => exact h
  | none =>
    -- without a sender nothing waits for its peer
    have hnot {e : EventId} (he : e ∈ u.m_eventTimerList) : e.addr ≠ addr := by
      rintro rfl
      have hlive := h.live e he
      rw [Udp.live, hss] at hlive
      cases hlive
    have hset : Queued { u with m_mapSender := u.m_mapSender.set addr (newSender addr) } :=
      h.set (fun e he ha => absurd ha (hnot he)) fun e he ha => absurd ha (hnot he)
    have htype : (UdpPkg.new.stamp PACKAGE_SYN 100000).type ≠ PACKAGE_ACK := by decide
    exact hset.sendPackage htype (SortedMap.get?_set_self _ _ _) (eventOf_syn _ addr rfl)
      (fun he => hnot he rfl) rfl

theorem sendStep (h : Queued u) (hconsistent : Consistent u) (hwindowed : ∀ b, u.Windowed b)
    (hbelow : ∀ b, u.Below b) (hstep : SendStep env u v) : Queued v := by
  cases hstep with
  | create addr => exact h.getSender addr
  | take hqueue hss hempty =>
    refine Queued.congr (h.modifySender hss (fun e _ _ => ?_) fun e _ _ => ?_) rfl rfl
    · cases e <;> rfl
    · cases e <;> rfl
  | number hnumber =>
    obtain ⟨hss, hqueue, hslot⟩ := hnumber
    rename_i addr ss pkg queue i
    have hfree := packets_of_checkEmptyWindow hslot
    have hpackets := ss.packets_number i pkg queue
    -- the event of a free slot is not in the list
    have hnot : .slot addr i ∉ u.m_eventTimerList := by
      intro he
      have hlive := h.live _ he
      rw [live_eq hss rfl, Sender.live, hfree] at hlive
      cases hlive
    have hnumbered := (hwindowed addr ss hss).number hslot (hbelow addr ss hss) pkg queue
    have hwindow : getWindowBySeq (ss.number i pkg queue).packets (ss.seq + 1) = some i := by
      have hself : (ss.number i pkg queue).packets i =
          some (pkg.stamp PACKAGE_DATA (ss.seq + 1)) := by
        rw [hpackets, Function.update_self]
      exact hnumbered.getWindowBySeq hself
    have hset : Queued { u with m_mapSender := u.m_mapSender.set addr (ss.number i pkg queue) } := by
      refine h.set (fun e he ha => ?_) fun e he ha => ?_
      · subst ha
        rw [event_eq u hss]
        exact ss.field_number i pkg queue TimeoutEvent.timeout (fun _ _ _ => rfl) e
      · rw [live_eq hss ha]
        cases e with
        | fin a => rfl
        | syn a => rfl
        | slot a j =>
          obtain rfl : a = addr := ha
          have hj : j ≠ i := by
            rintro rfl
            exact hnot he
          simp only [Sender.live, hpackets, Function.update_of_ne hj]
    have htype : (pkg.stamp PACKAGE_DATA (ss.seq + 1)).type ≠ PACKAGE_ACK := by
      rw [UdpPkg.stamp_type]
      decide
    have hevent := eventOf_data addr (UdpPkg.stamp_type pkg PACKAGE_DATA (ss.seq + 1)) hwindow
    rw [(hconsistent.senders addr ss hss).toaddr]
    refine hset.sendPackage htype (SortedMap.get?_set_self _ _ _) hevent hnot ?_
    simp only [Sender.live, hpackets, Function.update_self, Option.isSome_some]

/-- An event that waits no longer is out of the list. -/
theorem retire (h : Queued u) {e : EventId} {ss : Sender} {f : Sender → Sender}
    (hss : u.m_mapSender.get? e.addr = some ss)
    (htimeout : ∀ x, ((f ss).event x).timeout = (ss.event x).timeout)
    (hother : ∀ x, x.addr = e.addr → x ≠ e → (f ss).live x = ss.live x) :
    Queued ((u.deleteTimeoutEvent e).modifySender e.addr f) := by
  refine (h.delete e).modifySender hss (fun x _ _ => htimeout x) fun x hx haddr => ?_
  refine hother x haddr ?_
  rintro rfl
  exact h.not_mem_delete x hx

theorem freeSlot (h : Queued u) {addr : SockAddr} {ss : Sender}
    (hss : u.m_mapSender.get? addr = some ss) (i : Slot) : Queued (u.freeSlot addr i) := by
  have hss' : u.m_mapSender.get? (EventId.slot addr i).addr = some ss := hss
  refine h.retire hss' (fun x => ?_) fun x haddr hx => ss.live_clear haddr hx
  exact ss.field_updateEvent _ TimeoutEvent.timeout (.slot addr i) rfl x

theorem receiveAck (h : Queued u) (hconsistent : Consistent u) (sender : SockAddr) (p : UdpPkg) :
    Queued (u.receiveAck sender p) := by
  have hacked := @receiveAck_cases u sender p hconsistent
  generalize u.receiveAck sender p = v at hacked
  cases hacked with
  | ignored => exact h
  | @opened ss hss hstatus hseq =>
    have hss' : u.m_mapSender.get? (EventId.syn sender).addr = some ss := hss
    refine h.retire hss' (fun x => ?_) fun x haddr hx => ss.live_open haddr hx
    cases x <;> rfl
  | freed hss hstatus hi hmore => exact h.freeSlot hss _
  | finished hss hstatus hi hlast =>
    have hfreed := h.freeSlot hss
    exact (hfreed _).congr rfl rfl

theorem processReceive (h : Queued u) (hconsistent : Consistent u) (sender : SockAddr)
    (d : Delivery UInt8) : Queued (u.processReceive env sender d).1 := by
  obtain ⟨accesses, hhandled⟩ := processReceive_cases env u sender d
  have hu : Consistent { u with accesses := accesses } := hconsistent.congr rfl rfl rfl
  have hside {p : UdpPkg} {v : Udp} (hv : ReceiveSide sender p { u with accesses := accesses } v) :
      Queued v := h.congr hv.m_mapSender hv.m_eventTimerList
  generalize u.processReceive env sender d = r at hhandled
  cases hhandled with
  | ignored => exact h.congr rfl rfl
  | syn htype => exact hside (receiveSyn_side env hu htype)
  | data htype => exact hside (receiveData_side env hu htype _)
  | fin htype => exact hside (receiveFin_side env hu htype)
  | ack htype =>
    have hread : Queued { u with accesses := accesses } := h.congr rfl rfl
    exact hread.receiveAck hu _ _

theorem finish (h : Queued u) (ret : Int) : Queued (finish (u, ret)) := by
  unfold Udp.finish
  split
  · exact h.congr rfl rfl
  · exact h

end Queued

/-- What holds at the head of every pass. -/
structure Orderly (u : Udp) : Prop where
  consistent : Consistent u
  windowed : ∀ b, u.Windowed b
  queued : Queued u

theorem orderly_new : Orderly Udp.new := ⟨consistent_new, windowed_new, queued_new⟩

theorem running_processTimeout {u : Udp} {env : Env} {e : EventId} (h : Consistent u)
    (he : e ∈ u.m_eventTimerList) : (u.processTimeout env e).1.running = u.running := by
  have hfired := processTimeout_cases env h he
  generalize u.processTimeout env e = r at hfired
  cases hfired with
  | stop => rfl
  | report hss hp hcurrent htries => rfl
  | retry hss hp hcurrent =>
    obtain ⟨_, _, _, hfields⟩ := sendPackage_fields env (u.modifyEvent e _) e.addr _
    rw [hfields, modifyEvent, modifySender_eq]
    rfl

namespace Orderly
variable {u v : Udp} {env : Env} {e : EventId}

/-- An event of the list is the one its packet leads to. -/
theorem current (h : Orderly u) (he : e ∈ u.m_eventTimerList) :
    ∃ ss p, u.m_mapSender.get? e.addr = some ss ∧ ss.live e = true ∧
      (ss.event e).udpPkg = some p ∧ isCurrent ss (ss.event e) p e = true := by
  obtain ⟨ss, hss, hlive⟩ := (Option.any_eq_true _ _).mp (h.queued.live e he)
  have hok := h.consistent.senders _ ss hss
  have htoaddr := h.consistent.toaddr_of_mem hss he rfl
  cases e with
  | fin a => cases hlive
  | syn a =>
    refine ⟨ss, _, hss, hlive, hok.syn, ?_⟩
    rw [isCurrent, UdpPkg.stamp_type, htoaddr]
    exact decide_eq_true rfl
  | slot a i =>
    obtain ⟨p, hp⟩ := Option.isSome_iff_exists.mp hlive
    have htype : p.type = PACKAGE_DATA := (hok.data i p hp).2
    have hwindow := (h.windowed a ss hss).getWindowBySeq hp
    refine ⟨ss, p, hss, hlive, hp, ?_⟩
    rw [isCurrent, htype, htoaddr, hwindow]
    exact decide_eq_true rfl

theorem processTimeout_nonneg (h : Orderly u) (he : e ∈ u.m_eventTimerList) :
    0 ≤ (u.processTimeout env e).2 := by
  obtain ⟨ss, p, hss, hlive, hp, hcurrent⟩ := h.current he
  unfold processTimeout
  dsimp only
  rw [h.consistent.addressed e he, event_eq u hss, hss, hp]
  dsimp only
  rw [hcurrent, if_neg (by decide)]
  split
  · exact le_refl _
  · -- the packet was stamped before and stays the same
    rw [((h.consistent.senders _ ss hss).packet hp).1,
      retry_schedule env h.consistent he hss hp hcurrent rfl]

theorem fire_eq (h : Orderly u) (he : e ∈ u.m_eventTimerList) :
    u.fire env e = (u.processTimeout env e).1.deleteTimeoutEvent e :=
  if_neg (not_lt.mpr (h.processTimeout_nonneg he))

theorem queued_fire (h : Orderly u) (hhead : u.m_eventTimerList.head? = some e) :
    Queued (u.fire env e) := by
  have he := List.mem_of_head? hhead
  have hret : 0 ≤ (u.processTimeout env e).2 := h.processTimeout_nonneg he
  rw [h.fire_eq he]
  have hfired := processTimeout_cases env h.consistent he
  generalize u.processTimeout env e = r at hfired hret
  cases hfired with
  | stop =>
    change (0 : Int) ≤ -1 at hret
    omega
  | @report ss p hss hp hcurrent htries =>
    have hreport : Queued { u with raised := u.raised ++ [.timeout e.addr p.sessionid] } :=
      h.queued.congr rfl rfl
    exact hreport.delete e
  | @retry ss p hss hp hcurrent =>
    rw [retry_schedule env h.consistent he hss hp hcurrent rfl]
    obtain ⟨f, hf⟩ : ∃ f, f = fun ev : TimeoutEvent =>
      { ev with tryCount := ev.tryCount + 1, udpPkg := some p } := ⟨_, rfl⟩
    rw [← hf]
    have hretimed : ss.Retimed (ss.updateEvent e f) := by
      refine ss.updateEvent_retimed f e ?_
      rw [hf, hp]
    have hmodified : Queued (u.modifyEvent e f) := by
      refine h.queued.modifySender hss (fun x _ _ => ?_) fun x _ _ => hretimed.live x
      exact ss.field_updateEvent f TimeoutEvent.timeout e (by rw [hf]) x
    have hlist : (u.modifyEvent e f).m_eventTimerList = u.m_eventTimerList :=
      modifySender_m_eventTimerList u _ _
    obtain ⟨v, hv⟩ : ∃ v, v = ((u.modifyEvent e f).transmit env e.addr p).1 := ⟨_, rfl⟩
    have hsent : Queued v := hv ▸ hmodified.congr rfl rfl
    have hss' : v.m_mapSender.get? e.addr = some (ss.updateEvent e f) := by
      rw [hv]
      exact get?_modifySender_self u _ hss
    have hhead' : v.m_eventTimerList.head? = some e := by
      rw [hv]
      exact (congrArg List.head? hlist).trans hhead
    have hlive : (ss.updateEvent e f).live e = true := by
      rw [hretimed.live, ← live_eq hss rfl]
      exact h.queued.live e he
    rw [← hv]
    obtain ⟨hsenders, htimers⟩ := delete_schedule env hhead' e.addr
    have hagain : Queued ((v.deleteTimeoutEvent e).schedule env e.addr e) :=
      (hsent.delete e).schedule hss' (hsent.not_mem_delete e) hlive
    exact hagain.congr hsenders htimers

theorem sendStep (h : Orderly u) (hbelow : ∀ b, u.Below b) (hstep : SendStep env u v) : Orderly v :=
  ⟨h.consistent.sendStep hstep,
    fun b => (hstep.senderStep b).windowed (hbelow b) (h.windowed b),
    h.queued.sendStep h.consistent h.windowed hbelow hstep⟩

theorem loopHead (h : Orderly u) (hu : ∀ b, u.Below b) (hv : ∀ b, (u.loopHead env).1.Below b) :
    Orderly (u.loopHead env).1 := by
  have hstart : Orderly { u with ticks := u.ticks + 1 } :=
    ⟨h.consistent.congr rfl rfl rfl, h.windowed, h.queued.congr rfl rfl⟩
  have hsteps := checkSendQueue_steps env { u with ticks := u.ticks + 1 }
  exact @steps_below env { u with ticks := u.ticks + 1 } _ Orderly (fun _ => True)
    (fun hbelow h hstep => h.sendStep (fun b => hbelow b trivial) hstep) (fun b _ => hu b) hstart
    hsteps fun b _ => hv b

theorem step (h : Orderly u) (hu : ∀ b, u.Below b) {a : Action} (hstep : u.step env a = some v)
    (hv : ∀ b, v.Below b) : Orderly v := by
  refine ⟨h.consistent.step env hstep,
    fun b => step_windowed h.consistent (h.windowed b) (hu b) hstep (hv b), ?_⟩
  have hhead (hshrinks : Shrinks (u.loopHead env).1 v) : Orderly (u.loopHead env).1 :=
    h.loopHead hu fun b => hshrinks.below (hv b)
  cases step_cases hstep with
  | send pack hroom => exact h.queued.congr rfl rfl
  | idle hrunning hdue => exact (hhead (.of_senders rfl)).queued
  | fire e hrunning hdue =>
    obtain ⟨he, -⟩ := Option.filter_eq_some_iff.mp hdue
    have hfire : Shrinks (u.loopHead env).1 ((u.loopHead env).1.fire env e) :=
      fire_shrinks (h.consistent.loopHead env) (List.mem_of_head? he)
    exact (hhead hfire).queued_fire he
  | receive sender d hrunning hdue =>
    have hreceive : Shrinks (u.loopHead env).1 ((u.loopHead env).1.processReceive env sender d).1 :=
      processReceive_shrinks (h.consistent.loopHead env) sender d
    have hqueued := (hhead (hreceive.trans (finish_shrinks _))).queued
    exact (hqueued.processReceive (h.consistent.loopHead env) sender d).finish _

end Orderly

/-! ### Runs -/

/-- The event of a SYN whose packet is not freed yet, which happens when the sender opens, or
of a packet in the window that its number leads to. -/
def WaitsIn (ss : Sender) : EventId → Prop
  | .fin _ => False
  | .syn _ => ss.status = .SYN_SENT ∧ ss.synTimeoutEvent.udpPkg.isSome
  | .slot _ i => ∃ p, ss.packets i = some p ∧
      ∀ j q, ss.packets j = some q → q.seq = p.seq → j = i

structure TimerList (u : Udp) : Prop where
  sorted : u.m_eventTimerList.Pairwise fun e x => (u.event e).timeout ≤ (u.event x).timeout
  nodup : u.m_eventTimerList.Nodup
  waits : ∀ e ∈ u.m_eventTimerList, ∃ ss, u.m_mapSender.get? e.addr = some ss ∧ WaitsIn ss e

theorem Orderly.timerList {u : Udp} (h : Orderly u) : u.TimerList := by
  refine ⟨h.queued.sorted, h.queued.nodup, fun e he => ?_⟩
  obtain ⟨ss, p, hss, hlive, hp, -⟩ := h.current he
  refine ⟨ss, hss, ?_⟩
  cases e with
  | fin a => cases hlive
  | syn a => exact ⟨of_decide_eq_true hlive, Option.isSome_iff_exists.mpr ⟨p, hp⟩⟩
  | slot a i =>
    exact ⟨p, hp, fun j q hq hseq => (h.windowed a ss hss).unique j i q p hq hp hseq⟩

/-- No sender has counted to `INT_MAX`. -/
def AllBelow (u : Udp) : Prop := ∀ addr ∈ u.m_mapSender.keys, u.Below addr

instance (u : Udp) : Decidable u.AllBelow :=
  inferInstanceAs (Decidable (∀ addr ∈ u.m_mapSender.keys, u.Below addr))

theorem AllBelow.below {u : Udp} (h : u.AllBelow) (b : SockAddr) : u.Below b :=
  fun ss hss => h b (SortedMap.mem_keys hss) ss hss

/-- The step leads to a state in which no sender has counted to `INT_MAX`. -/
def Counting (env : Env) (u : Udp) (a : Action) : Prop := ∀ v ∈ u.step env a, v.AllBelow

instance (env : Env) (u : Udp) (a : Action) : Decidable (Counting env u a) :=
  inferInstanceAs (Decidable (∀ v ∈ u.step env a, v.AllBelow))

/-- In every state of a run, and behind `checkSendQueue` of the pass that comes next. -/
theorem timerList_of_counting {env : Env} {as : List Action} {u : Udp}
    (hrun : run (step env) Udp.new as = some u)
    (hcount : Along (step env) (Counting env) Udp.new as) :
    u.TimerList ∧ ((u.loopHead env).1.AllBelow → (u.loopHead env).1.TimerList ∧
      ∀ e, (u.loopHead env).2 = some e → 0 ≤ ((u.loopHead env).1.processTimeout env e).2 ∧
        ((u.loopHead env).1.fire env e).running = (u.loopHead env).1.running) := by
  obtain ⟨horderly, hbelow⟩ := @run_invariant _ _ (step env) (Counting env)
    (fun u => Orderly u ∧ ∀ b, u.Below b)
    (fun h hcount hstep =>
      have hbelow := (hcount _ hstep).below
      ⟨h.1.step h.2 hstep hbelow, hbelow⟩) _ _ _
    ⟨orderly_new, below_new⟩ hcount hrun
  refine ⟨horderly.timerList, fun hnext => ?_⟩
  have hhead := horderly.loopHead hbelow hnext.below
  refine ⟨hhead.timerList, fun e hdue => ?_⟩
  obtain ⟨he, -⟩ := Option.filter_eq_some_iff.mp hdue
  have hmem := List.mem_of_head? he
  refine ⟨hhead.processTimeout_nonneg hmem, ?_⟩
  rw [hhead.fire_eq hmem]
  exact running_processTimeout hhead.consistent hmem

/-- The SYN was sent again and the packet is due. -/
theorem timerList_of_counting_due : ∃ u,
    run (step tickingEnv) Udp.new [.send oneByte, .wake, .wake, .wake, .wake] = some u ∧
    u.m_eventTimerList = [.slot examplePeer (Fin.last 4), .syn examplePeer] ∧ u.TimerList ∧
    0 ≤ ((u.loopHead tickingEnv).1.processTimeout tickingEnv (.slot examplePeer (Fin.last 4))).2 := by
  have hrun : (run (step tickingEnv) Udp.new [.send oneByte, .wake, .wake, .wake, .wake]).map
      (fun u => (u.m_eventTimerList, (u.loopHead tickingEnv).2,
        decide (u.loopHead tickingEnv).1.AllBelow)) =
      some ([.slot examplePeer (Fin.last 4), .syn examplePeer],
        some (.slot examplePeer (Fin.last 4)), true) := by
    decide +kernel
  obtain ⟨u, hu, heq⟩ := Option.map_eq_some_iff.mp hrun
  simp only [Prod.mk.injEq, decide_eq_true_eq] at heq
  obtain ⟨hlist, hdue, hbelow⟩ := heq
  obtain ⟨htimers, hnext⟩ := timerList_of_counting hu (along_of_check (by decide +kernel))
  exact ⟨u, hu, hlist, htimers, ((hnext hbelow).2 _ hdue).1⟩

end Udp

end Hardcoder.UDP
