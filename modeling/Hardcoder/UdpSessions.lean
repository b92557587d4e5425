import Hardcoder.UdpDelivery
import Hardcoder.UdpTimers

/-! What becomes of a message: it is reported once, as finished or as timed out, if only
the timer of its last fragment gives up and no answer comes later than that. -/

namespace Hardcoder.UDP
open Stream Runs Relation
set_option autoImplicit false

namespace Udp

/-- The sessions reported as timed out to the peer. -/
def timeouts (u : Udp) (b : SockAddr) : List (BitVec 64) :=
  u.raised.filterMap fun
    | .timeout addr sessionid => if addr = b then some sessionid else none
    | _ => none

/-- All reports about sessions to the peer. -/
def terminals (u : Udp) (b : SockAddr) : List (BitVec 64) :=
  u.raised.filterMap fun
    | .sessionFinish addr sessionid => if addr = b then some sessionid else none
    | .timeout addr sessionid => if addr = b then some sessionid else none
    | .data _ _ _ => none

theorem count_terminals (u : Udp) (b : SockAddr) (sid : BitVec 64) :
    (u.terminals b).count sid = (u.finishes b).count sid + (u.timeouts b).count sid := by
  unfold terminals finishes timeouts
  induction u.raised with
  | nil => rfl
  | cons x xs ih =>
    cases x with
    | data addr s data => simpa using ih
    | sessionFinish addr s =>
      by_cases hb : addr = b
      · simp [hb, List.count_cons, ih]
        omega
      · simpa [hb] using ih
    | timeout addr s =>
      by_cases hb : addr = b
      · simp [hb, List.count_cons, ih]
        omega
      · simpa [hb] using ih

/-- The packet in a slot of the peer's window. -/
def held (u : Udp) (b : SockAddr) (i : Slot) : Option UdpPkg :=
  (u.m_mapSender.get? b).bind fun ss => ss.packets i

/-- The fragments in `lost` keep their slots, and their timers have given up. -/
structure Lost (b : SockAddr) (lost : List Nat) (u : Udp) : Prop where
  timeouts : ∀ sid ≠ 0, (u.timeouts b).count sid = (lost.map (sessionAt (u.fragmentsTo b))).count sid
  nodup : lost.Nodup
  last : ∀ k ∈ lost, LastAt (u.fragmentsTo b) k
  slot : ∀ k ∈ lost, ∃ i p, u.held b i = some p ∧ Numbered (u.fragmentsTo b) k p ∧
    u.m_eventTimerList.count (.slot b i) = 0
  once : ∀ i, u.m_eventTimerList.count (.slot b i) ≤ 1
  free : ∀ i, u.held b i = none → u.m_eventTimerList.count (.slot b i) = 0

section Held
variable {u v : Udp} {b : SockAddr}

theorem held_eq {ss : Sender} (hss : u.m_mapSender.get? b = some ss) (i : Slot) :
    u.held b i = ss.packets i := by
  rw [held, hss]
  rfl

theorem held_of_retimed (h : Option.Rel Sender.Retimed (u.m_mapSender.get? b) (v.m_mapSender.get? b)) :
    v.held b = u.held b := by
  funext i
  unfold held
  cases hu : u.m_mapSender.get? b with
  | none =>
    rw [hu] at h
    cases hv : v.m_mapSender.get? b with
    | none => rfl
    | some ss =>
      rw [hv] at h
      cases h
  | some ss =>
    rw [hu] at h
    cases hv : v.m_mapSender.get? b with
    | none =>
      rw [hv] at h
      cases h
    | some ss' =>
      rw [hv] at h
      cases h with
      | some hretimed => exact congrFun hretimed.same.packets i

theorem held_set_of_ne {addr : SockAddr} {ss : Sender} (h : b ≠ addr) :
    Udp.held { u with m_mapSender := u.m_mapSender.set addr ss } b = u.held b := by
  funext i
  unfold held
  rw [SortedMap.get?_set_of_ne _ h]

theorem held_set_self {ss : Sender} :
    Udp.held { u with m_mapSender := u.m_mapSender.set b ss } b = ss.packets := by
  funext i
  rw [held, SortedMap.get?_set_self]
  rfl

/-- The peer's packets in their slots, among them none without its number. -/
theorem Sending.held {m high : Nat} {done : List Nat} (h : Sending b m high done u) {i : Slot}
    {p : UdpPkg} (hp : u.held b i = some p) : ∃ k < m, Numbered (u.fragmentsTo b) k p := by
  rcases h.sender with ⟨hnone, -⟩ | ⟨ss, hss, hsends⟩
  · rw [Udp.held, hnone] at hp
    cases hp
  · rw [held_eq hss] at hp
    exact hsends.slots i p hp

theorem Sending.held_unique {m high : Nat} {done : List Nat} (h : Sending b m high done u)
    {i j : Slot} {p q : UdpPkg} (hp : u.held b i = some p) (hq : u.held b j = some q) {k : Nat}
    (hk : k < m) (hpk : Numbered (u.fragmentsTo b) k p) (hqk : Numbered (u.fragmentsTo b) k q) :
    i = j := by
  rcases h.sender with ⟨hnone, -⟩ | ⟨ss, hss, hsends⟩
  · rw [Udp.held, hnone] at hp
    cases hp
  · rw [held_eq hss] at hp hq
    exact hsends.unique k hk i j p q hp hq hpk hqk

end Held

namespace Lost
variable {env : Env} {u v : Udp} {b : SockAddr} {lost : List Nat}

theorem frame (h : Lost b lost u) (hmore : u.fragmentsTo b <+: v.fragmentsTo b)
    (htimeouts : ∀ sid ≠ 0, (v.timeouts b).count sid = (u.timeouts b).count sid)
    (hheld : v.held b = u.held b)
    (hcount : ∀ i, v.m_eventTimerList.count (.slot b i) ≤ u.m_eventTimerList.count (.slot b i)) :
    Lost b lost v := by
  refine ⟨fun sid hsid => ?_, h.nodup, fun k hk => (h.last k hk).extend hmore, fun k hk => ?_,
    fun i => (hcount i).trans (h.once i), fun i hi => ?_⟩
  · have hsame : lost.map (sessionAt (v.fragmentsTo b)) = lost.map (sessionAt (u.fragmentsTo b)) := by
      refine List.map_congr_left fun k hk => ?_
      obtain ⟨f, hf, -⟩ := h.last k hk
      exact sessionAt_extend (List.getElem?_eq_some_iff.mp hf).1 hmore
    rw [htimeouts sid hsid, hsame]
    exact h.timeouts sid hsid
  · obtain ⟨i, p, hp, hnum, hzero⟩ := h.slot k hk
    refine ⟨i, p, hheld ▸ hp, hnum.extend hmore, ?_⟩
    have := hcount i
    omega
  · have hzero := h.free i (hheld ▸ hi)
    have := hcount i
    omega

theorem congr (h : Lost b lost u) (htaken : v.taken = u.taken) (hraised : v.raised = u.raised)
    (hsender : v.m_mapSender = u.m_mapSender) (hlist : v.m_eventTimerList = u.m_eventTimerList) :
    Lost b lost v := by
  refine h.frame ?_ (fun _ _ => ?_) ?_ fun i => ?_
  · rw [fragmentsTo, fragmentsTo, htaken]
  · rw [Udp.timeouts, Udp.timeouts, hraised]
  · unfold held
    rw [hsender]
  · rw [hlist]

theorem sendPackage (h : Lost b lost u) {addr : SockAddr} {pkg : UdpPkg}
    (hcount : ∀ i, (u.sendPackage env addr pkg).1.m_eventTimerList.count (.slot b i) ≤
      u.m_eventTimerList.count (.slot b i)) : Lost b lost (u.sendPackage env addr pkg).1 := by
  refine h.frame ?_ (fun _ _ => ?_) (held_of_retimed (get?_sendPackage env addr pkg b)) hcount
  · rw [fragmentsTo, fragmentsTo, taken_sendPackage]
  · rw [Udp.timeouts, Udp.timeouts, raised_sendPackage]

theorem count_sendPackage (env : Env) {ss : Sender} {addr : SockAddr} {pkg : UdpPkg} {e : EventId}
    (htype : pkg.type ≠ PACKAGE_ACK) (hss : u.m_mapSender.get? addr = some ss)
    (he : eventOf ss addr pkg = .ok e) (x : EventId) :
    (u.sendPackage env addr pkg).1.m_eventTimerList.count x =
      u.m_eventTimerList.count x + if e = x then 1 else 0 := by
  rw [sendPackage_schedule env htype hss he, count_schedule]
  rfl

theorem count_sendPackage_of_ne {addr : SockAddr} {pkg : UdpPkg} {x : EventId} (hx : x.addr ≠ addr) :
    (u.sendPackage env addr pkg).1.m_eventTimerList.count x = u.m_eventTimerList.count x := by
  unfold Udp.sendPackage
  dsimp only
  split
  · rfl
  · split
    · rfl
    · split
      · rfl
      · rename_i e he
        have hne : e ≠ x := fun heq => hx (by rw [← heq, eventOf_addr he])
        rw [count_schedule, if_neg hne]
        rfl

theorem getSender (h : Lost b lost u) (addr : SockAddr) : Lost b lost (u.getSender env addr) := by
  unfold Udp.getSender
  cases hss : u.m_mapSender.get? addr with
  | some ss => exact h
  | none =>
    have hset : Lost b lost { u with m_mapSender := u.m_mapSender.set addr (newSender addr) } := by
      refine h.frame List.prefix_rfl (fun _ _ => rfl) ?_ fun i => Nat.le_refl _
      by_cases hb : b = addr
      · subst hb
        rw [held_set_self]
        funext i
        rw [held, hss]
        rfl
      · exact held_set_of_ne hb
    refine hset.sendPackage fun i => ?_
    have hcount := count_sendPackage env
      (u := { u with m_mapSender := u.m_mapSender.set addr (newSender addr) })
      (by rw [UdpPkg.stamp_type]; decide) (SortedMap.get?_set_self _ _ _)
      (eventOf_syn (newSender addr) addr (UdpPkg.stamp_type .new PACKAGE_SYN 100000)) (.slot b i)
    rw [hcount, if_neg (by simp)]
    exact Nat.le_refl _

theorem number (h : Lost b lost u) {u' : Udp} (hconsistent : Consistent u) {m high : Nat}
    {done : List Nat} (hsending : Sending b m high done u) (hnumber : Number env u u') :
    Lost b lost u' := by
  obtain ⟨hss, hqueue, hslot⟩ := hnumber
  rename_i addr ss pkg queue i
  rw [(hconsistent.senders addr ss hss).toaddr]
  have hfree := packets_of_checkEmptyWindow hslot
  have hpackets := ss.packets_number i pkg queue
  have hget : SortedMap.get? (u.m_mapSender.set addr (ss.number i pkg queue)) addr =
      some (ss.number i pkg queue) := SortedMap.get?_set_self _ _ _
  by_cases hb : b = addr
  · subst hb
    obtain ⟨v, hv⟩ : ∃ v, v = (Udp.sendPackage env
      { u with m_mapSender := u.m_mapSender.set b (ss.number i pkg queue) } b
        (pkg.stamp PACKAGE_DATA (ss.seq + 1))).1 := ⟨_, rfl⟩
    rw [← hv]
    have hheld : v.held b =
        Function.update (u.held b) i (some (pkg.stamp PACKAGE_DATA (ss.seq + 1))) := by
      have hsame := held_of_retimed (get?_sendPackage env
        (u := { u with m_mapSender := u.m_mapSender.set b (ss.number i pkg queue) }) b
        (pkg.stamp PACKAGE_DATA (ss.seq + 1)) b)
      rw [hv, hsame, held_set_self, hpackets]
      congr 1
      funext j
      exact (held_eq hss j).symm
    have hwindow := hsending.window_number hss pkg queue i
    have hcount (x : EventId) : v.m_eventTimerList.count x =
        u.m_eventTimerList.count x + if EventId.slot b i = x then 1 else 0 := by
      rw [hv]
      exact count_sendPackage env (by rw [UdpPkg.stamp_type]; decide) hget
        (eventOf_data b (UdpPkg.stamp_type pkg PACKAGE_DATA (ss.seq + 1)) hwindow) x
    have hfrags : v.fragmentsTo b = u.fragmentsTo b := by
      rw [hv, fragmentsTo, fragmentsTo, taken_sendPackage]
    have htimeouts : v.timeouts b = u.timeouts b := by
      rw [hv, Udp.timeouts, Udp.timeouts, raised_sendPackage]
    have hempty : u.held b i = none := (held_eq hss i).trans hfree
    refine ⟨?_, h.nodup, hfrags ▸ h.last, fun k hk => ?_, fun j => ?_, fun j hj => ?_⟩
    · rw [hfrags, htimeouts]
      exact h.timeouts
    · obtain ⟨j, p, hp, hnum, hzero⟩ := h.slot k hk
      have hj : j ≠ i := by
        rintro rfl
        cases hp.symm.trans hempty
      refine ⟨j, p, ?_, hfrags ▸ hnum, ?_⟩
      · rw [hheld, Function.update_of_ne hj, hp]
      · rw [hcount, hzero, if_neg (by simp [Ne.symm hj])]
    · rw [hcount]
      by_cases hj : j = i
      · subst hj
        rw [h.free j hempty, if_pos rfl]
      · rw [if_neg (by simp [Ne.symm hj])]
        exact h.once j
    · rw [hheld] at hj
      by_cases hji : j = i
      · subst hji
        rw [Function.update_self] at hj
        cases hj
      · rw [Function.update_of_ne hji] at hj
        rw [hcount, h.free j hj, if_neg (by simp [Ne.symm hji])]
  · have hset : Lost b lost { u with m_mapSender := u.m_mapSender.set addr (ss.number i pkg queue) } :=
      h.frame List.prefix_rfl (fun _ _ => rfl) (held_set_of_ne hb) fun i => Nat.le_refl _
    refine hset.sendPackage fun j => Nat.le_of_eq ?_
    exact count_sendPackage_of_ne hb

theorem sendStep (h : Lost b lost u) {u' : Udp} (hconsistent : Consistent u) {m high : Nat}
    {done : List Nat} (hsending : Sending b m high done u) (hstep : SendStep env u u') :
    Lost b lost u' := by
  cases hstep with
  | create addr => exact h.getSender addr
  | @take pack rest ss hqueue hss hempty =>
    obtain ⟨hmore, -⟩ := @Sending.take _ _ _ _ _ hsending _ rest _ hss hempty
    rw [modifySender_eq_set u _ hss] at hmore ⊢
    refine h.frame hmore (fun _ _ => rfl) ?_ fun i => Nat.le_refl _
    by_cases hb : b = pack.toAddr
    · subst hb
      refine held_set_self.trans ?_
      funext i
      exact (held_eq hss i).symm
    · exact held_set_of_ne hb
  | number hnumber => exact h.number hconsistent hsending hnumber

theorem count_delete_le (u : Udp) (e x : EventId) :
    (u.deleteTimeoutEvent e).m_eventTimerList.count x ≤ u.m_eventTimerList.count x :=
  List.erase_sublist.count_le x

theorem delete (h : Lost b lost u) (e : EventId) : Lost b lost (u.deleteTimeoutEvent e) :=
  h.frame List.prefix_rfl (fun _ _ => rfl) rfl fun _ => count_delete_le u e _

theorem finish (h : Lost b lost u) (ret : Int) : Lost b lost (Udp.finish (u, ret)) := by
  unfold Udp.finish
  split
  · exact h.congr rfl rfl rfl rfl
  · exact h

theorem report (h : Lost b lost u) {m high : Nat} {done : List Nat}
    (hsending : Sending b m high done u) {i : Slot} {p : UdpPkg} (hp : u.held b i = some p)
    (he : .slot b i ∈ u.m_eventTimerList) (hlast : p.totallen = p.offset + p.datalen.setWidth 32) :
    ∃ lost', Lost b lost' (Udp.deleteTimeoutEvent
      { u with raised := u.raised ++ [.timeout b p.sessionid] } (.slot b i)) := by
  obtain ⟨k, hk, hnum⟩ := hsending.held hp
  have hpos := List.count_pos_iff.mpr he
  have hone := h.once i
  have hcount (x : EventId) : (Udp.deleteTimeoutEvent
      { u with raised := u.raised ++ [.timeout b p.sessionid] } (.slot b i)).m_eventTimerList.count x ≤
        u.m_eventTimerList.count x := count_delete_le _ _ _
  have hself : (Udp.deleteTimeoutEvent { u with raised := u.raised ++ [.timeout b p.sessionid] }
      (.slot b i)).m_eventTimerList.count (.slot b i) = 0 := by
    change (u.m_eventTimerList.erase _).count _ = 0
    rw [List.count_erase_self]
    omega
  refine ⟨lost ++ [k], fun sid hsid => ?_, ?_, fun j hj => ?_, fun j hj => ?_,
    fun j => (hcount _).trans (h.once j), fun j hj => ?_⟩
  · have htimeouts : Udp.timeouts (Udp.deleteTimeoutEvent
        { u with raised := u.raised ++ [.timeout b p.sessionid] } (.slot b i)) b =
          u.timeouts b ++ [p.sessionid] := by
      simp [Udp.timeouts, deleteTimeoutEvent]
    have hsession : sessionAt (u.fragmentsTo b) k = p.sessionid := by
      obtain ⟨f, hf, rfl⟩ := hnum
      rw [sessionAt, hf]
      rfl
    rw [htimeouts, List.count_append, h.timeouts sid hsid, ← hsession, List.map_append,
      List.count_append]
    rfl
  · rw [List.nodup_append]
    refine ⟨h.nodup, List.nodup_singleton k, fun j hj l hl heq => ?_⟩
    obtain rfl := heq.trans (List.mem_singleton.mp hl)
    obtain ⟨i', q, hq, hnumq, hzero⟩ := h.slot j hj
    obtain rfl := hsending.held_unique hp hq hk hnum hnumq
    omega
  · rcases List.mem_append.mp hj with hj | hj
    · exact h.last j hj
    · obtain rfl := List.mem_singleton.mp hj
      obtain ⟨f, hf, rfl⟩ := hnum
      exact ⟨f, hf, hlast⟩
  · rcases List.mem_append.mp hj with hj | hj
    · obtain ⟨i', q, hq, hnumq, hzero⟩ := h.slot j hj
      refine ⟨i', q, hq, hnumq, Nat.le_zero.mp (hzero ▸ hcount _)⟩
    · obtain rfl := List.mem_singleton.mp hj
      exact ⟨i, p, hp, hnum, hself⟩
  · exact Nat.le_zero.mp (h.free j hj ▸ hcount _)

theorem fire (h : Lost b lost u) (hconsistent : Consistent u) {m high : Nat} {done : List Nat}
    (hsending : Sending b m high done u) {e : EventId} (he : e ∈ u.m_eventTimerList)
    (hlast : e.addr = b → u.GivesUp e → ∀ p ∈ (u.event e).udpPkg, p.type = PACKAGE_DATA →
      p.totallen = p.offset + p.datalen.setWidth 32) :
    ∃ lost', Lost b lost' (u.fire env e) := by
  have hfired := processTimeout_cases env hconsistent he
  unfold Udp.fire
  generalize u.processTimeout env e = r at hfired
  cases hfired with
  | stop => exact ⟨lost, (h.delete e).finish _⟩
  | @report ss p hss hp hcurrent htries =>
    have hok := hconsistent.senders _ ss hss
    have hsame (hother : ∀ sid ≠ 0, (Udp.timeouts
        { u with raised := u.raised ++ [.timeout e.addr p.sessionid] } b).count sid =
          (u.timeouts b).count sid) : ∃ lost', Lost b lost' (Udp.finish (Udp.deleteTimeoutEvent
            { u with raised := u.raised ++ [.timeout e.addr p.sessionid] } e, 0)) := by
      have hraised : Lost b lost { u with raised := u.raised ++ [.timeout e.addr p.sessionid] } :=
        h.frame List.prefix_rfl hother rfl fun _ => Nat.le_refl _
      exact ⟨lost, (hraised.delete e).finish _⟩
    by_cases hb : e.addr = b
    · cases e with
      | fin a => cases hok.fin.symm.trans hp
      | syn a =>
        refine hsame fun sid hsid => ?_
        obtain rfl := Option.some.inj (hok.syn.symm.trans hp)
        have hzero : (UdpPkg.new.stamp PACKAGE_SYN 100000).sessionid = 0 := rfl
        rw [hzero, Udp.timeouts, List.filterMap_append, List.count_append]
        simp only [Udp.timeouts, hb, List.filterMap_cons, if_true, List.filterMap_nil,
          List.count_singleton, beq_iff_eq, if_neg (Ne.symm hsid), Nat.add_zero]
      | slot a i =>
        obtain rfl : a = b := hb
        have htoaddr := hconsistent.toaddr_of_mem hss he rfl
        have hgives : u.GivesUp (.slot a i) := by
          simp only [GivesUp, event_eq u hss, htoaddr, hss, hp]
          exact ⟨hcurrent, htries⟩
        have hheld : u.held a i = some p := (held_eq hss i).trans hp
        have hend := hlast rfl hgives p (by rw [event_eq u hss]; exact hp) (hok.packet hp).2.1
        obtain ⟨lost', hlost'⟩ := h.report hsending hheld he hend
        exact ⟨lost', hlost'.finish 0⟩
    · refine hsame fun sid _ => ?_
      simp [Udp.timeouts, hb]
  | @retry ss p hss hp hcurrent =>
    obtain ⟨f, hf⟩ : ∃ f, f = fun ev : TimeoutEvent =>
      { ev with tryCount := ev.tryCount + 1, udpPkg := some p } := ⟨_, rfl⟩
    rw [← hf]
    have hpkg : (f (ss.event e)).udpPkg = (ss.event e).udpPkg := by rw [hf, hp]
    have hretimed := ss.updateEvent_retimed f e hpkg
    have hok := hconsistent.senders _ ss hss
    have hss' : (u.modifyEvent e f).m_mapSender.get? e.addr = some (ss.updateEvent e f) :=
      get?_modifySender_self u _ hss
    have htoaddr := hconsistent.toaddr_of_mem hss he rfl
    have hevent := eventOf_isCurrent hretimed htoaddr hp hok hcurrent
    have hmodified : (u.modifyEvent e f).held b = u.held b ∧ (u.modifyEvent e f).taken = u.taken ∧
        (u.modifyEvent e f).raised = u.raised ∧
        (u.modifyEvent e f).m_eventTimerList = u.m_eventTimerList := by
      unfold modifyEvent
      rw [modifySender_eq_set u _ hss]
      refine ⟨?_, rfl, rfl, rfl⟩
      by_cases hb : b = e.addr
      · subst hb
        rw [held_set_self, hretimed.same.packets]
        exact funext fun i => (held_eq hss i).symm
      · exact held_set_of_ne hb
    have hcount (x : EventId) : (((u.modifyEvent e f).sendPackage env e.addr p).1.deleteTimeoutEvent
        e).m_eventTimerList.count x ≤ u.m_eventTimerList.count x := by
      have hsent := count_sendPackage env (hok.packet hp).2.2 hss' hevent x
      rw [hmodified.2.2.2] at hsent
      change List.count x (List.erase _ e) ≤ _
      by_cases hx : e = x
      · subst hx
        rw [if_pos rfl] at hsent
        rw [List.count_erase_self]
        omega
      · rw [List.count_erase_of_ne (Ne.symm hx)]
        rw [if_neg hx] at hsent
        omega
    have hresent : Lost b lost
        (((u.modifyEvent e f).sendPackage env e.addr p).1.deleteTimeoutEvent e) := by
      refine h.frame ?_ (fun _ _ => ?_) ?_ fun i => hcount _
      · change _ <+: Udp.fragmentsTo ((u.modifyEvent e f).sendPackage env e.addr p).1 b
        rw [fragmentsTo, fragmentsTo, taken_sendPackage, hmodified.2.1]
      · change List.count _ (Udp.timeouts ((u.modifyEvent e f).sendPackage env e.addr p).1 b) = _
        rw [Udp.timeouts, raised_sendPackage, hmodified.2.2.1]
        rfl
      · exact (held_of_retimed (get?_sendPackage env e.addr p b)).trans hmodified.1
    exact ⟨lost, hresent.finish _⟩

theorem freeSlot (h : Lost b lost u) {addr : SockAddr} {ss : Sender} {i : Slot}
    (hss : u.m_mapSender.get? addr = some ss)
    (hrunning : addr = b → .slot b i ∈ u.m_eventTimerList) : Lost b lost (u.freeSlot addr i) := by
  have hss' : (u.deleteTimeoutEvent (.slot addr i)).m_mapSender.get? addr = some ss := hss
  have hdelete := h.delete (.slot addr i)
  unfold Udp.freeSlot
  rw [modifySender_eq_set _ _ hss']
  by_cases hb : b = addr
  · subst hb
    obtain ⟨v, hv⟩ : ∃ v : Udp, v = { u.deleteTimeoutEvent (.slot b i) with
      m_mapSender := (u.deleteTimeoutEvent (.slot b i)).m_mapSender.set b (ss.clear b i) } := ⟨_, rfl⟩
    rw [← hv]
    have hheld : v.held b = Function.update (u.held b) i none := by
      rw [hv, held_set_self, ss.packets_clear]
      congr 1
      exact funext fun j => (held_eq hss j).symm
    have hlist : v.m_eventTimerList = (u.deleteTimeoutEvent (.slot b i)).m_eventTimerList := by rw [hv]
    have hfrags : v.fragmentsTo b = u.fragmentsTo b := by
      rw [hv]
      rfl
    have htimeouts : v.timeouts b = u.timeouts b := by
      rw [hv]
      rfl
    have hpos := List.count_pos_iff.mpr (hrunning rfl)
    refine ⟨?_, h.nodup, hfrags ▸ h.last, fun k hk => ?_, fun j => hlist ▸ hdelete.once j,
      fun j hj => ?_⟩
    · rw [hfrags, htimeouts]
      exact h.timeouts
    · obtain ⟨j, p, hp, hnum, hzero⟩ := h.slot k hk
      have hj : j ≠ i := by
        rintro rfl
        omega
      refine ⟨j, p, ?_, hfrags ▸ hnum, ?_⟩
      · rw [hheld, Function.update_of_ne hj, hp]
      · rw [hlist]
        exact Nat.le_zero.mp (hzero ▸ count_delete_le u _ _)
    · rw [hlist]
      by_cases hji : j = i
      · subst hji
        have hone := h.once j
        change (u.m_eventTimerList.erase _).count _ = 0
        rw [List.count_erase_self]
        omega
      · rw [hheld, Function.update_of_ne hji] at hj
        exact Nat.le_zero.mp (h.free j hj ▸ count_delete_le u _ _)
  · exact hdelete.frame List.prefix_rfl (fun _ _ => rfl) (held_set_of_ne hb) fun _ => Nat.le_refl _

theorem receiveAck (h : Lost b lost u) (hconsistent : Consistent u) {sender : SockAddr} {p : UdpPkg}
    (hrunning : sender = b → ∀ ss ∈ u.m_mapSender.get? b, ss.status = .OPEN →
      ∀ i ∈ getWindowBySeq ss.packets p.seq, .slot b i ∈ u.m_eventTimerList) :
    Lost b lost (u.receiveAck sender p) := by
  have hcases := @receiveAck_cases u sender p hconsistent
  generalize u.receiveAck sender p = v at hcases
  cases hcases with
  | ignored => exact h
  | @opened ss hss hstatus hseq =>
    have hss' : (u.deleteTimeoutEvent (.syn sender)).m_mapSender.get? sender = some ss := hss
    rw [modifySender_eq_set _ _ hss']
    refine (h.delete (.syn sender)).frame List.prefix_rfl (fun _ _ => rfl) ?_ fun _ => Nat.le_refl _
    by_cases hb : b = sender
    · subst hb
      refine held_set_self.trans ?_
      exact funext fun i => (held_eq hss i).symm
    · exact held_set_of_ne hb
  | @freed ss i hss hstatus hi hmore =>
    refine h.freeSlot hss fun hb => ?_
    subst hb
    exact hrunning rfl ss hss hstatus i hi
  | @finished ss i hss hstatus hi hlast =>
    have hfreed : Lost b lost (u.freeSlot sender i) := by
      refine h.freeSlot hss fun hb => ?_
      subst hb
      exact hrunning rfl ss hss hstatus i hi
    refine hfreed.frame List.prefix_rfl (fun _ _ => ?_) rfl fun _ => Nat.le_refl _
    simp [Udp.timeouts]

theorem receiveSide (h : Lost b lost u) {sender : SockAddr} {p : UdpPkg}
    (hside : ReceiveSide sender p u v) : Lost b lost v := by
  refine h.frame ?_ (fun _ _ => ?_) ?_ fun i => ?_
  · rw [fragmentsTo, fragmentsTo, hside.taken]
  · obtain ⟨new, hraised, hdata⟩ := hside.raised
    have hnone : Udp.timeouts { v with raised := new } b = [] := by
      refine List.filterMap_eq_nil_iff.mpr fun x hx => ?_
      obtain ⟨data, rfl⟩ := hdata x hx
      rfl
    unfold Udp.timeouts at hnone ⊢
    rw [hraised, List.filterMap_append, hnone, List.append_nil]
  · unfold held
    rw [hside.m_mapSender]
  · rw [hside.m_eventTimerList]

end Lost

end Udp

namespace Net
variable {a b : SockAddr} {net : Net} {lost : List Nat}

theorem lost_loopHead {env : Env} (h : Link a b False net) (hlost : (net a).Lost b lost) :
    ((net a).loopHead env).1.Lost b lost := by
  have hstart : Link a b False (net.set a { net a with ticks := (net a).ticks + 1 }) :=
    h.congr ((h.consistent a).congr rfl rfl rfl) (.congr ⟨rfl, rfl, rfl⟩ rfl rfl) rfl rfl rfl
  have hstart' : Udp.Lost b lost { net a with ticks := (net a).ticks + 1 } :=
    hlost.congr rfl rfl rfl rfl
  refine (@steps_invariant _ (Udp.SendStep env)
    (fun v => Link a b False (net.set a v) ∧ v.Lost b lost) (fun {v v'} hv hstep => ?_) _ _
      ⟨hstart, hstart'⟩ (Udp.checkSendQueue_steps env _)).2
  obtain ⟨hlink, hv⟩ := hv
  have hconsistent := hlink.consistent a
  obtain ⟨m, r, high, done, hlinked⟩ := hlink.linked
  have hsending := hlinked.sending
  rw [set_self] at hconsistent hsending
  refine ⟨?_, hv.sendStep hconsistent hsending hstep⟩
  rw [← net.set_self a v] at hstep
  have hnext := hlink.sendStep hstep
  rwa [set_set] at hnext

/-- The timer that gives up is that of a last fragment, and an ACK comes while the timer
of its packet runs. -/
def Closing (envs : SockAddr → Env) (a b : SockAddr) (net : Net) : SockAddr × Udp.Action → Prop
  | (_, .send _) => True
  | (n, .wake) => n = a →
    ∀ e ∈ ((net a).loopHead (envs a)).2, e.addr = b → ((net a).loopHead (envs a)).1.GivesUp e →
      ∀ p ∈ (((net a).loopHead (envs a)).1.event e).udpPkg, p.type = PACKAGE_DATA →
        p.totallen = p.offset + p.datalen.setWidth 32
  | (n, .receive sender d) => n = a → sender = b →
    (UdpPkg.decode (Udp.received d)).type = PACKAGE_ACK →
      ∀ ss ∈ ((net a).loopHead (envs a)).1.m_mapSender.get? b, ss.status = .OPEN →
        ∀ i ∈ getWindowBySeq ss.packets (UdpPkg.decode (Udp.received d)).seq,
          .slot b i ∈ ((net a).loopHead (envs a)).1.m_eventTimerList

instance (envs : SockAddr → Env) (a b : SockAddr) (net : Net) (move : SockAddr × Udp.Action) :
    Decidable (Closing envs a b net move) :=
  match move with
  | (_, .send _) => .isTrue trivial
  | (n, .wake) => inferInstanceAs (Decidable (n = a →
      ∀ e ∈ ((net a).loopHead (envs a)).2, e.addr = b → ((net a).loopHead (envs a)).1.GivesUp e →
        ∀ p ∈ (((net a).loopHead (envs a)).1.event e).udpPkg, p.type = PACKAGE_DATA →
          p.totallen = p.offset + p.datalen.setWidth 32))
  | (n, .receive sender d) => inferInstanceAs (Decidable (n = a → sender = b →
      (UdpPkg.decode (Udp.received d)).type = PACKAGE_ACK →
        ∀ ss ∈ ((net a).loopHead (envs a)).1.m_mapSender.get? b, ss.status = .OPEN →
          ∀ i ∈ getWindowBySeq ss.packets (UdpPkg.decode (Udp.received d)).seq,
            .slot b i ∈ ((net a).loopHead (envs a)).1.m_eventTimerList))

theorem lost_processReceive {env : Env} {u : Udp} (hconsistent : u.Consistent) (hlost : u.Lost b lost)
    {sender : SockAddr} {d : Delivery UInt8}
    (hrunning : sender = b → (UdpPkg.decode (Udp.received d)).type = PACKAGE_ACK →
      ∀ ss ∈ u.m_mapSender.get? b, ss.status = .OPEN →
        ∀ i ∈ getWindowBySeq ss.packets (UdpPkg.decode (Udp.received d)).seq,
          .slot b i ∈ u.m_eventTimerList) :
    (u.processReceive env sender d).1.Lost b lost := by
  obtain ⟨accesses, hhandled⟩ := Udp.processReceive_cases env u sender d
  have hu : Udp.Consistent { u with accesses := accesses } := hconsistent.congr rfl rfl rfl
  have hlost' : Udp.Lost b lost { u with accesses := accesses } := hlost.congr rfl rfl rfl rfl
  generalize u.processReceive env sender d = out at hhandled
  cases hhandled with
  | ignored => exact hlost'
  | syn htype => exact hlost'.receiveSide (Udp.receiveSyn_side env hu htype)
  | data htype => exact hlost'.receiveSide (Udp.receiveData_side env hu htype _)
  | fin htype => exact hlost'.receiveSide (Udp.receiveFin_side env hu htype)
  | ack htype => exact hlost'.receiveAck hu fun hb => hrunning hb htype

theorem lost_step {envs : SockAddr → Env} {move : SockAddr × Udp.Action} {net' : Net}
    (h : Link a b False net ∧ ∃ lost, (net a).Lost b lost) (hclosing : Closing envs a b net move)
    (hstep : net.step envs move = some net') :
    Link a b False net' ∧ ∃ lost, (net' a).Lost b lost := by
  obtain ⟨hlink, lost, hlost⟩ := h
  refine ⟨hlink.step False.elim hstep, ?_⟩
  obtain ⟨n, action⟩ := move
  obtain ⟨harrives, hstep⟩ := Option.ite_none_right_eq_some.mp hstep
  obtain ⟨u', hu', rfl⟩ := Option.map_eq_some_iff.mp hstep
  by_cases hn : a = n
  · subst hn
    rw [set_self]
    have hhead : Link a b False (net.set a ((net a).loopHead (envs a)).1) := hlink.loopHead
    have hconsistent := hhead.consistent a
    obtain ⟨m, r, high, done, hlinked⟩ := hhead.linked
    have hsending := hlinked.sending
    rw [set_self] at hconsistent hsending
    have hheld := @lost_loopHead _ _ _ _ (envs a) hlink hlost
    cases Udp.step_cases hu' with
    | send pack hroom => exact ⟨lost, hlost.congr rfl rfl rfl rfl⟩
    | idle hrunning hdue => exact ⟨lost, hheld⟩
    | fire e hrunning hdue =>
      obtain ⟨he, -⟩ := Option.filter_eq_some_iff.mp hdue
      exact hheld.fire hconsistent hsending (List.mem_of_head? he) (hclosing rfl e hdue)
    | receive sender d hrunning hdue =>
      exact ⟨lost, (lost_processReceive hconsistent hheld (hclosing rfl)).finish _⟩
  · rw [set_of_ne net n u' hn]
    exact ⟨lost, hlost⟩

theorem lost_new : (Net.new a).Lost b [] := by
  refine ⟨fun _ _ => rfl, List.nodup_nil, fun k hk => ?_, fun k hk => ?_, fun _ => Nat.zero_le _,
    fun _ _ => rfl⟩
  · cases hk
  · cases hk

/-- What was reported was reported once: of every session there are at most as many
reports as messages. -/
theorem terminals_le_of_closing {envs : SockAddr → Env} {moves : List (SockAddr × Udp.Action)}
    {net : Net} (hrun : run (step envs) Net.new moves = some net)
    (hclosing : Along (step envs) (Closing envs a b) Net.new moves) {sid : BitVec 64} (hsid : sid ≠ 0) :
    ((net a).terminals b).count sid ≤
      (((net a).taken.filter (·.toAddr = b)).map (·.sessionid)).count sid := by
  have hinv := @run_invariant _ _ (step envs) (Closing envs a b)
    (fun net => Link a b False net ∧ ∃ lost, (net a).Lost b lost)
    (fun h hclosing hstep => lost_step h hclosing hstep) _ _ _
    ⟨.new a b False, [], lost_new⟩ hclosing hrun
  obtain ⟨hlink, lost, hlost⟩ := hinv
  obtain ⟨m, r, high, done, hlinked⟩ := hlink.linked
  -- what is finished has left its slot, what is lost has not
  have hnodup : (done ++ lost).Nodup := by
    rw [List.nodup_append]
    refine ⟨hlinked.finished.nodup, hlost.nodup, fun j hj l hl heq => ?_⟩
    subst heq
    obtain ⟨i, p, hp, hnum, -⟩ := hlost.slot j hl
    rcases hlinked.sending.sender with ⟨hnone, -⟩ | ⟨ss, hss, hsends⟩
    · rw [Udp.held, hnone] at hp
      cases hp
    · rw [Udp.held_eq hss] at hp
      exact hsends.gone j hj i p hp hnum
  have hlast : ∀ k ∈ done ++ lost, LastAt ((net a).fragmentsTo b) k := fun k hk =>
    (List.mem_append.mp hk).elim (hlinked.finished.last k) (hlost.last k)
  obtain ⟨packs, ⟨packs', hperm, hsub⟩, hsids, -⟩ := owners hnodup hlast
  have hcount : ((net a).terminals b).count sid = (packs.map (·.sessionid)).count sid := by
    rw [(net a).count_terminals, hlinked.finished.sids, hlost.timeouts sid hsid, hsids, List.map_append,
      List.count_append]
    rfl
  rw [hcount, ← (hperm.map _).count_eq]
  exact (hsub.map _).count_le sid

theorem terminals_le_of_closing_oneByte : ∃ net,
    run (step fun _ => Udp.tickingEnv) Net.new (exampleMoves ++
      [exampleAck synPkg, exampleAck (dataPkg (examplePack.fragmentAt 0) 0)]) = some net ∧
    (net exampleHost).terminals examplePeer = [1] ∧ (1 : BitVec 64) ≠ 0 ∧
    ((net exampleHost).terminals examplePeer).count 1 ≤
      (((net exampleHost).taken.filter (·.toAddr = examplePeer)).map (·.sessionid)).count 1 := by
  have hrun : (run (step fun _ => Udp.tickingEnv) Net.new (exampleMoves ++
      [exampleAck synPkg, exampleAck (dataPkg (examplePack.fragmentAt 0) 0)])).map
        (fun net => (net exampleHost).terminals examplePeer) = some [1] := by decide +kernel
  obtain ⟨net, hnet, hterminals⟩ := Option.map_eq_some_iff.mp hrun
  exact ⟨net, hnet, hterminals, by decide,
    terminals_le_of_closing hnet (along_of_check (by decide +kernel)) (by decide)⟩

/-- Both packets reach the peer after they were given up, and its answers the host. -/
theorem terminals_timeout_then_finish : ∃ net,
    run (step fun _ => Udp.tickingEnv) Net.new ((exampleHost, .send examplePack) ::
      List.replicate 22 (exampleHost, .wake) ++ [exampleSyn, exampleData, exampleAck synPkg,
        exampleAck (dataPkg (examplePack.fragmentAt 0) 0)]) = some net ∧
    (net exampleHost).taken = [examplePack] ∧
    (net exampleHost).raised = [.timeout examplePeer 0, .timeout examplePeer 1,
      .sessionFinish examplePeer 1] ∧
    ¬ ((net exampleHost).terminals examplePeer).count 1 ≤
      (((net exampleHost).taken.filter (·.toAddr = examplePeer)).map (·.sessionid)).count 1 := by
  have hrun : (run (step fun _ => Udp.tickingEnv) Net.new ((exampleHost, .send examplePack) ::
      List.replicate 22 (exampleHost, .wake) ++ [exampleSyn, exampleData, exampleAck synPkg,
        exampleAck (dataPkg (examplePack.fragmentAt 0) 0)])).map
          (fun net => ((net exampleHost).taken, (net exampleHost).raised)) =
      some ([examplePack], [.timeout examplePeer 0, .timeout examplePeer 1,
        .sessionFinish examplePeer 1]) := by decide +kernel
  obtain ⟨net, hnet, heq⟩ := Option.map_eq_some_iff.mp hrun
  obtain ⟨htaken, hraised⟩ := Prod.mk.inj heq
  refine ⟨net, hnet, htaken, hraised, ?_⟩
  rw [Udp.terminals, hraised, htaken]
  decide

end Net

end Hardcoder.UDP
