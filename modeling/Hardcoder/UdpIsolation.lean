import Hardcoder.UdpSending
import Hardcoder.UdpInputBounds

/-! Peers share one queue of messages. What happens to the messages for one of them does
not depend on another one, unless a message for that one waits at the front. -/

namespace Hardcoder.UDP
open Stream Runs Relation
set_option autoImplicit false

namespace Sender.Retimed
variable {ss ss' ss'' : Sender}

theorem symm (h : ss.Retimed ss') : ss'.Retimed ss :=
  ⟨h.toaddr.symm, h.status.symm, h.seq.symm, h.dataQueue.symm, fun e => (h.same e).symm⟩

theorem trans (h : ss.Retimed ss') (h' : ss'.Retimed ss'') : ss.Retimed ss'' :=
  ⟨h'.toaddr.trans h.toaddr, h'.status.trans h.status, h'.seq.trans h.seq,
    h'.dataQueue.trans h.dataQueue, fun e => (h'.same e).trans (h.same e)⟩

theorem number (h : ss.Retimed ss') (i : Slot) (pkg : UdpPkg) (queue : List UdpPkg) :
    (ss.number i pkg queue).Retimed (ss'.number i pkg queue) := by
  have hpackets : (ss'.number i pkg queue).packets = (ss.number i pkg queue).packets := by
    rw [packets_number, packets_number, h.same.packets, h.seq]
  refine ⟨h.toaddr, h.status, congrArg (· + 1) h.seq, rfl, fun e => ?_⟩
  cases e with
  | fin a => exact h.same (.fin a)
  | syn a => exact h.same (.syn a)
  | slot a j => exact congrFun hpackets j

end Sender.Retimed

theorem Sender.rel_retimed {x x' y y' : Option Sender} (h : Option.Rel Sender.Retimed x x')
    (hx : Option.Rel Sender.Retimed x y) (hx' : Option.Rel Sender.Retimed x' y') :
    Option.Rel Sender.Retimed y y' := by
  cases h with
  | none =>
    cases hx
    cases hx'
    exact .none
  | some hretimed =>
    cases hx with
    | some hl =>
      cases hx' with
      | some hr => exact .some ((hl.symm.trans hretimed).trans hr)

namespace Udp

/-- The messages taken for a peer. -/
def takenFor (u : Udp) (b : SockAddr) : List SendPack := u.taken.filter (·.toAddr = b)

/-- The datagrams sent to a peer. -/
def sentTo (u : Udp) (b : SockAddr) : List (SockAddr × List UInt8) := u.sent.filter (·.1 = b)

/-- `sendto` never fails. -/
def Reliable (env : Env) : Prop := ∀ n, 0 ≤ env.sendto n

/-- Nothing happens to the peer's messages. -/
structure Untouched (b : SockAddr) (u v : Udp) : Prop where
  sender : v.m_mapSender.get? b = u.m_mapSender.get? b
  taken : v.takenFor b = u.takenFor b
  sent : v.sentTo b = u.sentTo b
  queue : v.sendQueue = u.sendQueue

theorem Untouched.refl (b : SockAddr) (u : Udp) : Untouched b u u := ⟨rfl, rfl, rfl, rfl⟩

theorem Untouched.trans {b : SockAddr} {u v w : Udp} (h : Untouched b u v) (h' : Untouched b v w) :
    Untouched b u w :=
  ⟨h'.sender.trans h.sender, h'.taken.trans h.taken, h'.sent.trans h.sent,
    h'.queue.trans h.queue⟩

/-- Two endpoints have done the same for the peer, apart from when; what was sent is only
compared if no `sendto` fails. -/
structure Alike (b : SockAddr) (reliable : Prop) (u u' : Udp) : Prop where
  sender : Option.Rel Sender.Retimed (u.m_mapSender.get? b) (u'.m_mapSender.get? b)
  taken : u'.takenFor b = u.takenFor b
  sent : reliable → u'.sentTo b = u.sentTo b

section Pass
variable {env env' : Env} {b : SockAddr} {reliable : Prop} {u u' v : Udp}

theorem Alike.left (h : Alike b reliable u u') (hv : Untouched b u v) : Alike b reliable v u' :=
  ⟨hv.sender ▸ h.sender, h.taken.trans hv.taken.symm, fun hr => (h.sent hr).trans hv.sent.symm⟩

theorem Alike.right (h : Alike b reliable u u') (hv : Untouched b u' v) : Alike b reliable u v :=
  ⟨hv.sender ▸ h.sender, hv.taken.trans h.taken, fun hr => hv.sent.trans (h.sent hr)⟩

theorem sent_transmit (u : Udp) (addr : SockAddr) (pkg : UdpPkg) :
    (u.transmit env addr pkg).1.sent =
      u.sent ++ if 0 ≤ env.sendto u.ticks then [(addr, pkg.bytes)] else [] := by
  unfold transmit
  dsimp only
  split
  · rfl
  · exact (List.append_nil _).symm

theorem sentTo_sendPackage (u : Udp) (addr : SockAddr) (pkg : UdpPkg) :
    (u.sendPackage env addr pkg).1.sentTo b =
      u.sentTo b ++ if 0 ≤ env.sendto u.ticks ∧ addr = b then [(addr, pkg.bytes)] else [] := by
  obtain ⟨_, _, _, hfields⟩ := sendPackage_fields env u addr pkg
  rw [hfields]
  unfold sentTo
  dsimp only
  rw [sent_transmit, List.filter_append]
  by_cases hret : 0 ≤ env.sendto u.ticks
  · by_cases hb : addr = b
    · simp [hret, hb]
    · simp [hret, hb]
  · simp [hret]

theorem sendPackage_untouched (u : Udp) {addr : SockAddr} (hb : b ≠ addr) (pkg : UdpPkg) :
    Untouched b u (u.sendPackage env addr pkg).1 := by
  refine ⟨?_, ?_, ?_, sendQueue_sendPackage env u addr pkg⟩
  · unfold sendPackage
    dsimp only
    split
    · rfl
    · split
      · rfl
      · split
        · rfl
        · rename_i e he
          obtain rfl := eventOf_addr he
          exact get?_schedule_of_ne env _ e.addr e hb
  · rw [takenFor, takenFor, taken_sendPackage]
  · rw [sentTo_sendPackage, if_neg fun h => hb h.2.symm, List.append_nil]

theorem Alike.sendPackage (h : Alike b reliable u u')
    (hr : reliable → Reliable env ∧ Reliable env') (pkg : UdpPkg) :
    Alike b reliable (u.sendPackage env b pkg).1 (u'.sendPackage env' b pkg).1 := by
  refine ⟨Sender.rel_retimed h.sender (get?_sendPackage env b pkg b) (get?_sendPackage env' b pkg b), ?_,
    fun hrel => ?_⟩
  · rw [takenFor, takenFor, taken_sendPackage, taken_sendPackage]
    exact h.taken
  · rw [sentTo_sendPackage, sentTo_sendPackage, if_pos ⟨(hr hrel).2 _, rfl⟩,
      if_pos ⟨(hr hrel).1 _, rfl⟩, h.sent hrel]

theorem Alike.set (h : Alike b reliable u u') {ss ss' : Sender} (hretimed : ss.Retimed ss') :
    Alike b reliable { u with m_mapSender := u.m_mapSender.set b ss }
      { u' with m_mapSender := u'.m_mapSender.set b ss' } := by
  refine ⟨?_, h.taken, h.sent⟩
  rw [SortedMap.get?_set_self, SortedMap.get?_set_self]
  exact .some hretimed

/-! ### The loop over the senders -/

theorem fillWindow_untouched {addr : SockAddr} (hb : b ≠ addr) (fuel : Nat) :
    ∀ {u : Udp}, Consistent u → Untouched b u (fillWindow env addr fuel u) := by
  induction fuel with
  | zero => exact fun _ => .refl b _
  | succ fuel ih =>
    intro u hconsistent
    rw [fillWindow]
    split
    · exact .refl b u
    · rename_i ss hss
      split
      · rename_i pkg queue i hqueue hslot
        have hset : Untouched b u
            { u with m_mapSender := u.m_mapSender.set addr (ss.number i pkg queue) } :=
          ⟨SortedMap.get?_set_of_ne _ hb _, rfl, rfl, rfl⟩
        have hnumber : Number env u _ := .pass u hss hqueue hslot
        have hnext := hconsistent.sendStep (.number hnumber)
        rw [(hconsistent.senders addr ss hss).toaddr] at hnext ⊢
        exact (hset.trans (sendPackage_untouched _ hb _)).trans (ih hnext)
      · exact .refl b u

theorem fillWindow_alike (hr : reliable → Reliable env ∧ Reliable env')
    (fuel : Nat) : ∀ {u u' : Udp}, Consistent u → Consistent u' → Alike b reliable u u' →
      Alike b reliable (fillWindow env b fuel u) (fillWindow env' b fuel u') := by
  induction fuel with
  | zero => exact fun _ _ h => h
  | succ fuel ih =>
    intro u u' hu hu' h
    rw [fillWindow, fillWindow]
    cases hss : u.m_mapSender.get? b with
    | none =>
      cases hss' : u'.m_mapSender.get? b with
      | none => exact h
      | some ss' =>
        have hsender := h.sender
        rw [hss, hss'] at hsender
        cases hsender
    | some ss =>
      cases hss' : u'.m_mapSender.get? b with
      | none =>
        have hsender := h.sender
        rw [hss, hss'] at hsender
        cases hsender
      | some ss' =>
        have hsender := h.sender
        rw [hss, hss'] at hsender
        cases hsender with
        | some hretimed =>
          dsimp only
          rw [hretimed.same.packets, hretimed.seq, hretimed.dataQueue]
          split
          · rename_i pkg queue i hqueue hslot
            have hnumber : Number env u _ := .pass u hss hqueue hslot
            have hnumber' : Number env' u' _ := .pass u' hss' (hretimed.dataQueue.trans hqueue)
              (by rwa [hretimed.same.packets, hretimed.seq])
            have hnext := hu.sendStep (.number hnumber)
            have hnext' := hu'.sendStep (.number hnumber')
            rw [(hu.senders b ss hss).toaddr] at hnext ⊢
            rw [(hu'.senders b ss' hss').toaddr] at hnext' ⊢
            rw [hretimed.seq] at hnext'
            exact ih hnext hnext' ((h.set (hretimed.number i pkg queue)).sendPackage hr _)
          · exact h

/-- No packet waits for the peer, or no slot is to be had. -/
def Saturated (u : Udp) (b : SockAddr) : Prop :=
  ∀ ss, u.m_mapSender.get? b = some ss →
    ss.dataQueue = [] ∨ checkEmptyWindow ss.packets (ss.seq + 1) = none

theorem fillWindow_of_saturated (h : Saturated u b) (fuel : Nat) : fillWindow env b fuel u = u := by
  cases fuel with
  | zero => rfl
  | succ fuel =>
    rw [fillWindow]
    split
    · rfl
    · rename_i ss hss
      rcases h ss hss with hempty | hnone
      · rw [hempty]
      · rw [hnone]
        cases ss.dataQueue <;> rfl

theorem fillWindow_saturated (fuel : Nat) : ∀ {u : Udp}, Consistent u → u.queueLength b ≤ fuel →
    Saturated (fillWindow env b fuel u) b := by
  have hlength {u : Udp} {ss : Sender} (hss : u.m_mapSender.get? b = some ss) :
      u.queueLength b = ss.dataQueue.length := by
    rw [queueLength, hss]
    rfl
  induction fuel with
  | zero =>
    intro u _ hle ss hss
    rw [fillWindow] at hss
    rw [hlength hss] at hle
    exact .inl (List.length_eq_zero_iff.mp (Nat.le_zero.mp hle))
  | succ fuel ih =>
    intro u hu hle
    rw [fillWindow]
    split
    · rename_i hnone
      exact fun ss hss => absurd (hnone.symm.trans hss) (by simp)
    · rename_i ss hss
      split
      · rename_i pkg queue i hqueue hslot
        have hnumber : Number env u _ := .pass u hss hqueue hslot
        have hnext := hu.sendStep (.number hnumber)
        refine ih hnext ?_
        rw [hlength hss, hqueue] at hle
        have hrel := get?_sendPackage env
          (u := { u with m_mapSender := u.m_mapSender.set b (ss.number i pkg queue) }) ss.toaddr
          (pkg.stamp PACKAGE_DATA (ss.seq + 1)) b
        rw [SortedMap.get?_set_self] at hrel
        unfold queueLength
        revert hrel
        generalize (Udp.sendPackage env _ ss.toaddr _).1.m_mapSender.get? b = x
        intro hrel
        cases hrel with
        | some hretimed =>
          change List.length _ ≤ fuel
          rw [hretimed.dataQueue]
          exact Nat.le_of_succ_le_succ hle
      · rename_i hstop
        intro ss' hss'
        obtain rfl := Option.some.inj (hss.symm.trans hss')
        cases hqueue : ss.dataQueue with
        | nil => exact .inl rfl
        | cons pkg queue =>
          cases hslot : checkEmptyWindow ss.packets (ss.seq + 1) with
          | none => exact .inr rfl
          | some i => exact absurd hslot (hstop pkg queue i hqueue)

/-- The loop body of `checkSendQueue`. -/
def fillNext (env : Env) (u : Udp) (addr : SockAddr) : Udp :=
  fillWindow env addr (u.queueLength addr) u

theorem fillNext_consistent (h : Consistent u) (addr : SockAddr) : Consistent (fillNext env u addr) :=
  Runs.steps_invariant (fun hv hstep => hv.sendStep (.number hstep)) h (fillWindow_numbers env addr _ u)

theorem foldl_untouched (keys : List SockAddr) : ∀ {u : Udp}, Consistent u → Saturated u b →
    Untouched b u (keys.foldl (fillNext env) u) := by
  induction keys with
  | nil => exact fun _ _ => .refl b _
  | cons addr keys ih =>
    intro u hu hsaturated
    have hstep : Untouched b u (fillNext env u addr) := by
      by_cases hb : b = addr
      · subst hb
        rw [fillNext, fillWindow_of_saturated hsaturated]
        exact .refl b u
      · exact fillWindow_untouched hb _ hu
    refine hstep.trans (ih (fillNext_consistent hu addr) ?_)
    unfold Saturated at hsaturated ⊢
    rwa [hstep.sender]

theorem foldl_untouched_before {keys : List SockAddr} : ∀ {u : Udp}, Consistent u → b ∉ keys →
    Consistent (keys.foldl (fillNext env) u) ∧ Untouched b u (keys.foldl (fillNext env) u) := by
  induction keys with
  | nil => exact fun hu _ => ⟨hu, .refl b _⟩
  | cons addr keys ih =>
    intro u hu hb
    rw [List.mem_cons, not_or] at hb
    obtain ⟨hconsistent, hrest⟩ := ih (fillNext_consistent hu addr) hb.2
    exact ⟨hconsistent, (fillWindow_untouched hb.1 _ hu).trans hrest⟩

theorem foldl_through {keys : List SockAddr} (hu : Consistent u) (hb : b ∈ keys) :
    ∃ v, Consistent v ∧ Untouched b u v ∧
      Untouched b (fillNext env v b) (keys.foldl (fillNext env) u) := by
  obtain ⟨pre, post, rfl, hpre⟩ := List.eq_append_cons_of_mem hb
  obtain ⟨hv, hbefore⟩ := @foldl_untouched_before env b pre u hu hpre
  refine ⟨_, hv, hbefore, ?_⟩
  rw [List.foldl_append, List.foldl_cons]
  exact foldl_untouched post (fillNext_consistent hv b) (fillWindow_saturated _ hv (Nat.le_refl _))

theorem fillWindows_alike (hr : reliable → Reliable env ∧ Reliable env')
    (hu : Consistent u) (hu' : Consistent u') (h : Alike b reliable u u') :
    Alike b reliable (fillWindows env u) (fillWindows env' u') := by
  have hsender := h.sender
  change Alike b reliable (u.m_mapSender.keys.foldl (fillNext env) u)
    (u'.m_mapSender.keys.foldl (fillNext env') u')
  cases hss : u.m_mapSender.get? b with
  | none =>
    rw [hss] at hsender
    have hss' : u'.m_mapSender.get? b = none := by
      cases hs : u'.m_mapSender.get? b with
      | none => rfl
      | some ss =>
        rw [hs] at hsender
        cases hsender
    have hsat : Saturated u b := fun ss hs => absurd (hss.symm.trans hs) (by simp)
    have hsat' : Saturated u' b := fun ss hs => absurd (hss'.symm.trans hs) (by simp)
    exact (h.left (foldl_untouched _ hu hsat)).right (foldl_untouched _ hu' hsat')
  | some ss =>
    cases hss' : u'.m_mapSender.get? b with
    | none =>
      rw [hss, hss'] at hsender
      cases hsender
    | some ss' =>
      obtain ⟨v, hv, hbefore, hafter⟩ := @foldl_through env b u _ hu (SortedMap.mem_keys hss)
      obtain ⟨v', hv', hbefore', hafter'⟩ := @foldl_through env' b u' _ hu' (SortedMap.mem_keys hss')
      have hmiddle := (h.left hbefore).right hbefore'
      have hlength : v'.queueLength b = v.queueLength b := by
        have hsender := hmiddle.sender
        unfold queueLength
        rw [hbefore.sender, hbefore'.sender, hss, hss'] at hsender ⊢
        cases hsender with
        | some hretimed => exact congrArg List.length hretimed.dataQueue
      have hfill := fillWindow_alike hr (v.queueLength b) hv hv' hmiddle
      refine Alike.right (Alike.left hfill hafter) ?_
      rw [fillNext, hlength] at hafter'
      exact hafter'

/-! ### The message at the front -/

theorem getSender_untouched (u : Udp) {addr : SockAddr} (hb : b ≠ addr) :
    Untouched b u (u.getSender env addr) := by
  unfold getSender
  split
  · exact .refl b u
  · have hset : Untouched b u { u with m_mapSender := u.m_mapSender.set addr (newSender addr) } :=
      ⟨SortedMap.get?_set_of_ne _ hb _, rfl, rfl, rfl⟩
    exact hset.trans (sendPackage_untouched _ hb _)

theorem getSender_alike (hr : reliable → Reliable env ∧ Reliable env')
    (h : Alike b reliable u u') : Alike b reliable (u.getSender env b) (u'.getSender env' b) := by
  have hsender := h.sender
  unfold getSender
  cases hss : u.m_mapSender.get? b with
  | none =>
    cases hss' : u'.m_mapSender.get? b with
    | none => exact (h.set (.refl (newSender b))).sendPackage hr _
    | some ss' =>
      rw [hss, hss'] at hsender
      cases hsender
  | some ss =>
    cases hss' : u'.m_mapSender.get? b with
    | none =>
      rw [hss, hss'] at hsender
      cases hsender
    | some ss' => exact h

/-- Whether fragments wait for the peer. -/
def isIdle (u : Udp) (b : SockAddr) : Bool := (u.m_mapSender.get? b).any fun ss => ss.dataQueue = []

/-- Takes the message out of the queue. -/
def takePack (u : Udp) (pack : SendPack) (rest : List SendPack) : Udp :=
  { u.modifySender pack.toAddr fun ss => { ss with dataQueue := pack.fragments } with
    sendQueue := rest, taken := u.taken ++ [pack] }

theorem takeFront_cons {pack : SendPack} {rest : List SendPack} (hqueue : u.sendQueue = pack :: rest) :
    takeFront env u = if (u.getSender env pack.toAddr).isIdle pack.toAddr then
      (u.getSender env pack.toAddr).takePack pack rest else u.getSender env pack.toAddr := by
  unfold takeFront
  rw [hqueue]
  rfl

theorem takePack_untouched (u : Udp) {pack : SendPack} (hb : b ≠ pack.toAddr) (rest : List SendPack) :
    Untouched b { u with sendQueue := rest } (u.takePack pack rest) := by
  refine ⟨get?_modifySender_of_ne u _ hb, ?_, ?_, rfl⟩
  · simp [takenFor, takePack, Ne.symm hb]
  · simp [sentTo, takePack]

theorem takePack_alike {pack : SendPack} (h : Alike pack.toAddr reliable u u')
    (rest : List SendPack) :
    Alike pack.toAddr reliable (u.takePack pack rest) (u'.takePack pack rest) := by
  refine ⟨?_, ?_, fun hrel => ?_⟩
  · have hsender := h.sender
    unfold takePack modifySender
    cases hss : u.m_mapSender.get? pack.toAddr with
    | none =>
      cases hss' : u'.m_mapSender.get? pack.toAddr with
      | none => rw [hss, hss']; exact .none
      | some ss' =>
        rw [hss, hss'] at hsender
        cases hsender
    | some ss =>
      cases hss' : u'.m_mapSender.get? pack.toAddr with
      | none =>
        rw [hss, hss'] at hsender
        cases hsender
      | some ss' =>
        rw [hss, hss'] at hsender
        cases hsender with
        | some hretimed =>
          simp only [SortedMap.get?_set_self]
          exact .some ⟨hretimed.toaddr, hretimed.status, hretimed.seq, rfl, hretimed.same⟩
  · have htaken := h.taken
    unfold takenFor takePack at *
    simp [htaken]
  · have hsent := h.sent hrel
    unfold sentTo takePack at *
    simpa using hsent

/-- A message for the peer waits at the front for fragments to the same peer. -/
def Stalled (u : Udp) (a : SockAddr) : Prop :=
  ∃ pack ∈ u.sendQueue.head?, pack.toAddr = a ∧ ∃ ss ∈ u.m_mapSender.get? a, ss.dataQueue ≠ []

instance (u : Udp) (a : SockAddr) : Decidable (u.Stalled a) := by
  unfold Stalled
  infer_instance

/-- Two endpoints that differ in what concerns one peer only. -/
structure Apart (a : SockAddr) (reliable : Prop) (u u' : Udp) : Prop where
  left : Consistent u
  right : Consistent u'
  queue : u'.sendQueue = u.sendQueue
  alike : ∀ b ≠ a, Alike b reliable u u'

theorem isIdle_of_alike (h : Alike b reliable u u') : u'.isIdle b = u.isIdle b := by
  have hsender := h.sender
  unfold isIdle
  revert hsender
  generalize u.m_mapSender.get? b = x
  generalize u'.m_mapSender.get? b = x'
  intro hsender
  cases hsender with
  | none => rfl
  | some hretimed => simp [hretimed.dataQueue]

theorem isIdle_of_not_stalled {pack : SendPack} {rest : List SendPack}
    (hqueue : u.sendQueue = pack :: rest) (h : ¬ u.Stalled pack.toAddr) :
    (u.getSender env pack.toAddr).isIdle pack.toAddr = true := by
  unfold getSender
  cases hss : u.m_mapSender.get? pack.toAddr with
  | some ss =>
    by_contra hidle
    refine h ⟨pack, by rw [hqueue]; rfl, rfl, ss, hss, fun hempty => hidle ?_⟩
    simp [isIdle, hss, hempty]
  | none =>
    have hrel := get?_sendPackage env
      (u := { u with m_mapSender := u.m_mapSender.set pack.toAddr (newSender pack.toAddr) })
      pack.toAddr (UdpPkg.new.stamp PACKAGE_SYN 100000) pack.toAddr
    rw [SortedMap.get?_set_self] at hrel
    unfold isIdle
    dsimp only
    revert hrel
    generalize SortedMap.get? _ pack.toAddr = x
    intro hrel
    cases hrel with
    | some hretimed => simp [hretimed.dataQueue, newSender]

theorem takeFront_apart {a : SockAddr}
    (hr : reliable → Reliable env ∧ Reliable env')
    (h : Apart a reliable u u') (hleft : ¬ u.Stalled a) (hright : ¬ u'.Stalled a) :
    Apart a reliable (takeFront env u) (takeFront env' u') := by
  have hu : Consistent (takeFront env u) :=
    Runs.steps_invariant (fun hv hstep => hv.sendStep hstep) h.left (takeFront_steps env u)
  have hu' : Consistent (takeFront env' u') :=
    Runs.steps_invariant (fun hv hstep => hv.sendStep hstep) h.right (takeFront_steps env' u')
  cases hqueue : u.sendQueue with
  | nil =>
    have hqueue' := h.queue.trans hqueue
    unfold takeFront
    rw [hqueue, hqueue']
    exact h
  | cons pack rest =>
    have hqueue' := h.queue.trans hqueue
    rw [takeFront_cons hqueue] at hu ⊢
    rw [takeFront_cons hqueue'] at hu' ⊢
    have hcreate : ∀ b ≠ a, Alike b reliable (u.getSender env pack.toAddr)
        (u'.getSender env' pack.toAddr) := by
      intro b hb
      by_cases hpack : b = pack.toAddr
      · subst hpack
        exact getSender_alike hr (h.alike _ hb)
      · exact ((h.alike b hb).left (getSender_untouched u hpack)).right (getSender_untouched u' hpack)
    have hidle : (u'.getSender env' pack.toAddr).isIdle pack.toAddr =
        (u.getSender env pack.toAddr).isIdle pack.toAddr := by
      by_cases ha : pack.toAddr = a
      · subst ha
        rw [isIdle_of_not_stalled hqueue hleft, isIdle_of_not_stalled hqueue' hright]
      · exact isIdle_of_alike (hcreate _ ha)
    rw [hidle] at hu' ⊢
    split at hu
    · rename_i htake
      rw [if_pos htake] at hu' ⊢
      rw [if_pos htake]
      refine ⟨hu, hu', rfl, fun b hb => ?_⟩
      by_cases hpack : b = pack.toAddr
      · subst hpack
        exact takePack_alike (hcreate _ hb) rest
      · have halike := hcreate b hb
        have hpop : Alike b reliable { u.getSender env pack.toAddr with sendQueue := rest }
            { u'.getSender env' pack.toAddr with sendQueue := rest } :=
          ⟨halike.sender, halike.taken, halike.sent⟩
        exact (hpop.left (takePack_untouched _ hpack rest)).right (takePack_untouched _ hpack rest)
    · rename_i hstay
      rw [if_neg hstay] at hu' ⊢
      rw [if_neg hstay]
      refine ⟨hu, hu', ?_, hcreate⟩
      rw [sendQueue_getSender, sendQueue_getSender, h.queue]

theorem sendQueue_fillWindows (u : Udp) : (fillWindows env u).sendQueue = u.sendQueue := by
  refine @Runs.steps_invariant _ _ (fun v : Udp => v.sendQueue = u.sendQueue)
    (fun hv hstep => ?_) _ _ rfl (fillWindows_numbers env u)
  obtain ⟨hss, hqueue, hslot⟩ := hstep
  exact (sendQueue_sendPackage env _ _ _).trans hv

theorem checkSendQueue_apart {a : SockAddr}
    (hr : reliable → Reliable env ∧ Reliable env')
    (h : Apart a reliable u u') (hleft : ¬ u.Stalled a) (hright : ¬ u'.Stalled a) :
    Apart a reliable (checkSendQueue env u) (checkSendQueue env' u') := by
  have htake := takeFront_apart hr h hleft hright
  refine ⟨?_, ?_, ?_, fun b hb => fillWindows_alike hr htake.left htake.right (htake.alike b hb)⟩
  · exact Runs.steps_invariant (fun hv hstep => hv.sendStep (.number hstep)) htake.left
      (fillWindows_numbers env _)
  · exact Runs.steps_invariant (fun hv hstep => hv.sendStep (.number hstep)) htake.right
      (fillWindows_numbers env' _)
  · unfold checkSendQueue
    rw [sendQueue_fillWindows, sendQueue_fillWindows, htake.queue]

/-! ### What one peer causes -/

theorem sendAck_untouched (u : Udp) {sender : SockAddr} (hb : b ≠ sender) (p : UdpPkg) :
    Untouched b u (u.sendAck env sender p).1 :=
  sendPackage_untouched u hb _

theorem receiveSyn_untouched (u : Udp) {sender : SockAddr} (hb : b ≠ sender) (p : UdpPkg) :
    Untouched b u (u.receiveSyn env sender p).1 := by
  have hset (v : Udp) (hv : Untouched b u v) (rs : Receiver) (q : UdpPkg) :
      Untouched b u ((v.setReceiver sender rs).sendAck env sender q).1 := by
    have hkeep : Untouched b v (v.setReceiver sender rs) := ⟨rfl, rfl, rfl, rfl⟩
    exact (hv.trans hkeep).trans (sendAck_untouched _ hb _)
  unfold receiveSyn
  cases hrs : u.m_mapReceiver.get? sender with
  | none => exact hset u (.refl b u) _ _
  | some rs =>
    by_cases hstatus : rs.status ≠ .OPENING
    · simp only [if_pos hstatus]
      exact hset (u.cleanReceiver rs) ⟨rfl, rfl, rfl, rfl⟩ _ _
    · simp only [if_neg hstatus]
      exact hset u (.refl b u) _ _

theorem receiveData_untouched (u : Udp) {sender : SockAddr} (hb : b ≠ sender) (recvRet : Nat)
    (p : UdpPkg) : Untouched b u (u.receiveData env sender recvRet p).1 := by
  unfold receiveData
  split
  · exact .refl b u
  · split
    · exact .refl b u
    · split
      · exact .refl b u
      · refine Untouched.trans ?_ (sendAck_untouched _ hb _)
        split <;> exact ⟨rfl, rfl, rfl, rfl⟩

theorem receiveFin_untouched (u : Udp) {sender : SockAddr} (hb : b ≠ sender) (p : UdpPkg) :
    Untouched b u (u.receiveFin env sender p).1 := by
  unfold receiveFin
  split
  · exact sendAck_untouched u hb p
  · split
    · exact .refl b u
    · exact (sendAck_untouched u hb _).trans ⟨rfl, rfl, rfl, rfl⟩

theorem modifySender_untouched (u : Udp) {addr : SockAddr} (hb : b ≠ addr) (f : Sender → Sender) :
    Untouched b u (u.modifySender addr f) := by
  refine ⟨get?_modifySender_of_ne u f hb, by simp [takenFor], by simp [sentTo], ?_⟩
  rw [modifySender_eq]

theorem receiveAck_untouched (hu : Consistent u) {sender : SockAddr} (hb : b ≠ sender) (p : UdpPkg) :
    Untouched b u (u.receiveAck sender p) := by
  have hdelete (e : EventId) : Untouched b u (u.deleteTimeoutEvent e) := ⟨rfl, rfl, rfl, rfl⟩
  have hfree (i : Slot) : Untouched b u (u.freeSlot sender i) :=
    (hdelete _).trans (modifySender_untouched _ hb _)
  have hcases := @receiveAck_cases u sender p hu
  generalize u.receiveAck sender p = v at hcases
  cases hcases with
  | ignored => exact .refl b u
  | opened hss hstatus hseq => exact (hdelete _).trans (modifySender_untouched _ hb _)
  | freed hss hstatus hi hmore => exact hfree _
  | finished hss hstatus hi hlast => exact (hfree _).trans ⟨rfl, rfl, rfl, rfl⟩

theorem processReceive_untouched (hu : Consistent u) {sender : SockAddr} (hb : b ≠ sender)
    (d : Delivery UInt8) : Untouched b u (u.processReceive env sender d).1 := by
  obtain ⟨accesses, hhandled⟩ := processReceive_cases env u sender d
  have hread : Untouched b u { u with accesses := accesses } := ⟨rfl, rfl, rfl, rfl⟩
  have hconsistent : Consistent { u with accesses := accesses } := hu.congr rfl rfl rfl
  generalize u.processReceive env sender d = out at hhandled
  cases hhandled with
  | ignored => exact hread
  | syn htype => exact hread.trans (receiveSyn_untouched _ hb _)
  | data htype => exact hread.trans (receiveData_untouched _ hb _ _)
  | fin htype => exact hread.trans (receiveFin_untouched _ hb _)
  | ack htype => exact hread.trans (receiveAck_untouched hconsistent hb _)

theorem fire_untouched (hu : Consistent u) {e : EventId} (he : e ∈ u.m_eventTimerList)
    (hb : b ≠ e.addr) : Untouched b u (u.fire env e) := by
  have hdone {r : Udp × Int} (hr : Untouched b u r.1) :
      Untouched b u (finish (r.1.deleteTimeoutEvent e, r.2)) := by
    unfold finish
    split <;> exact hr.trans ⟨rfl, rfl, rfl, rfl⟩
  have hfired := processTimeout_cases env hu he
  unfold fire
  generalize u.processTimeout env e = r at hfired
  cases hfired with
  | stop => exact hdone (.refl b u)
  | @report ss p hss hp hcurrent htries =>
    have hraised : Untouched b u { u with raised := u.raised ++ [.timeout e.addr p.sessionid] } :=
      ⟨rfl, rfl, rfl, rfl⟩
    exact hdone hraised
  | retry hss hp hcurrent =>
    exact hdone ((modifySender_untouched u hb _).trans (sendPackage_untouched _ hb _))

end Pass

/-- What a peer causes itself: its datagrams are received, its timers come due. -/
inductive Caused (env : Env) (a : SockAddr) (u : Udp) : Udp → Prop where
  | receive (d : Delivery UInt8) : Caused env a u (u.processReceive env a d).1
  | timer {e : EventId} (he : e ∈ u.m_eventTimerList) (ha : e.addr = a) : Caused env a u (u.fire env e)

/-- A call of `checkSendQueue` at both endpoints, or something that `a` causes at one. -/
inductive Twin (env env' : Env) (a : SockAddr) : Udp × Udp → Udp × Udp → Prop where
  | pass {u u' : Udp} (hleft : ¬ u.Stalled a) (hright : ¬ u'.Stalled a) :
      Twin env env' a (u, u') (checkSendQueue env u, checkSendQueue env' u')
  | left {u u' v : Udp} (h : Caused env a u v) : Twin env env' a (u, u') (v, u')
  | right {u u' v : Udp} (h : Caused env' a u' v) : Twin env env' a (u, u') (u, v)

section Twin
variable {env env' : Env} {a : SockAddr} {reliable : Prop} {u u' v v' : Udp}

theorem Caused.untouched (h : Caused env a u v) (hu : Consistent u) :
    Consistent v ∧ ∀ b ≠ a, Untouched b u v := by
  cases h with
  | receive d =>
    exact ⟨hu.processReceive env a d, fun b hb => processReceive_untouched hu hb d⟩
  | timer he ha =>
    refine ⟨hu.fire env he, fun b hb => fire_untouched hu he ?_⟩
    rwa [ha]

theorem exists_ne (a : SockAddr) : ∃ b, b ≠ a := by
  refine ⟨⟨a.sin_port + 1, a.s_addr⟩, fun h => ?_⟩
  have hport := congrArg SockAddr.sin_port h
  simp at hport

theorem Apart.twin (hr : reliable → Reliable env ∧ Reliable env')
    (h : Apart a reliable u u') (hstep : Twin env env' a (u, u') (v, v')) :
    Apart a reliable v v' := by
  obtain ⟨b₀, hb₀⟩ := exists_ne a
  cases hstep with
  | pass hleft hright => exact checkSendQueue_apart hr h hleft hright
  | left hcaused =>
    obtain ⟨hv, huntouched⟩ := hcaused.untouched h.left
    refine ⟨hv, h.right, ?_, fun b hb => (h.alike b hb).left (huntouched b hb)⟩
    exact h.queue.trans (huntouched b₀ hb₀).queue.symm
  | right hcaused =>
    obtain ⟨hv, huntouched⟩ := hcaused.untouched h.right
    refine ⟨h.left, hv, ?_, fun b hb => (h.alike b hb).right (huntouched b hb)⟩
    exact (huntouched b₀ hb₀).queue.trans h.queue

end Twin

/-- What happens to the messages for other peers does not depend on `a`, unless a message
for `a` waits at the front. -/
theorem isolated_of_not_stalled {env env' : Env} {a : SockAddr} {as as' : List Action}
    {u u' v v' : Udp} (hu : run (step env) Udp.new as = some u)
    (hu' : run (step env') Udp.new as' = some u') (hqueue : u'.sendQueue = u.sendQueue)
    (halike : ∀ b ≠ a, Alike b (Reliable env ∧ Reliable env') u u')
    (hsteps : ReflTransGen (Twin env env' a) (u, u') (v, v')) :
    ∀ b ≠ a, Alike b (Reliable env ∧ Reliable env') v v' := by
  have hapart : Apart a (Reliable env ∧ Reliable env') u u' :=
    ⟨consistent_run env hu, consistent_run env' hu', hqueue, halike⟩
  exact (@steps_invariant _ (Twin env env' a) (fun x => Apart a
    (Reliable env ∧ Reliable env') x.1 x.2)
    (fun h hstep => h.twin id hstep) _ _ hapart hsteps).alike

theorem Alike.refl (b : SockAddr) (reliable : Prop) (u : Udp) : Alike b reliable u u := by
  refine ⟨?_, rfl, fun _ => rfl⟩
  cases u.m_mapSender.get? b with
  | none => exact .none
  | some ss => exact .some (.refl ss)

def otherPeer : SockAddr := ⟨3, 3⟩

/-- A message of one byte, to the one peer or the other. -/
def byteTo (addr : SockAddr) (sessionid : BitVec 64) : SendPack := ⟨addr, sessionid, [7], length_oneByte⟩

theorem isolated_of_not_stalled_ack : ∃ u v v',
    run (step exampleEnv) Udp.new [.send (byteTo examplePeer 1), .wake, .send (byteTo otherPeer 2)] = some u ∧
    ReflTransGen (Twin exampleEnv exampleEnv examplePeer) (u, u) (v, v') ∧
    (v.takenFor otherPeer).length = 1 ∧
    ∀ b ≠ examplePeer, Alike b
      (Reliable exampleEnv ∧ Reliable exampleEnv) v v' := by
  have hrun : (run (step exampleEnv) Udp.new
      [.send (byteTo examplePeer 1), .wake, .send (byteTo otherPeer 2)]).any fun u =>
        let w := (u.processReceive exampleEnv examplePeer (craft PACKAGE_ACK 100000 0 [])).1
        ¬ u.Stalled examplePeer ∧ ¬ w.Stalled examplePeer ∧
          ((checkSendQueue exampleEnv w).takenFor otherPeer).length = 1 := by decide +kernel
  obtain ⟨u, hu, hchecks⟩ := (Option.any_eq_true _ _).mp hrun
  obtain ⟨hright, hleft, htaken⟩ := of_decide_eq_true hchecks
  have hsteps : ReflTransGen (Twin exampleEnv exampleEnv examplePeer) (u, u)
      (checkSendQueue exampleEnv
        (u.processReceive exampleEnv examplePeer (craft PACKAGE_ACK 100000 0 [])).1,
        checkSendQueue exampleEnv u) :=
    .tail (.single (.left (.receive _))) (.pass hleft hright)
  exact ⟨u, _, _, hu, hsteps, htaken,
    isolated_of_not_stalled hu hu rfl (fun b _ => .refl b _ u) hsteps⟩

/-- Seven messages for the one peer and, behind them, one for the other. -/
def crowded : List Action :=
  ((List.range 7).map fun n => .send (byteTo examplePeer (BitVec.ofNat 64 (n + 1)))) ++
    .send (byteTo otherPeer 8) :: List.replicate 6 .wake

/-- The answers of the one peer to its SYN and its first packet. -/
def answered : List Action :=
  [.receive examplePeer (craft PACKAGE_ACK 100000 0 []),
    .receive examplePeer (craft PACKAGE_ACK 100001 1 [])]

/-- The two runs differ in the answers of the one peer; in one of them the message for the
other peer is taken and sent, in the other one it stays where it is. -/
theorem isolated_head_blocks : ∃ u u',
    run (step exampleEnv) Udp.new crowded = some u ∧
    run (step exampleEnv) Udp.new (crowded ++ answered) = some u' ∧
    u.sendQueue = u'.sendQueue ∧
    u.m_mapSender.get? otherPeer = none ∧ u'.m_mapSender.get? otherPeer = none ∧
    ((checkSendQueue exampleEnv)^[3] u).takenFor otherPeer = [] ∧
    ((checkSendQueue exampleEnv)^[3] u).sentTo otherPeer = [] ∧
    ((checkSendQueue exampleEnv)^[3] u').takenFor otherPeer = [byteTo otherPeer 8] ∧
    (((checkSendQueue exampleEnv)^[3] u').sentTo otherPeer).length = 2 := by
  have hleft : (run (step exampleEnv) Udp.new crowded).any fun u =>
      u.sendQueue = [byteTo examplePeer 7, byteTo otherPeer 8] ∧
      (u.m_mapSender.get? otherPeer).isNone ∧
      ((checkSendQueue exampleEnv)^[3] u).takenFor otherPeer = [] ∧
      ((checkSendQueue exampleEnv)^[3] u).sentTo otherPeer = [] := by decide +kernel
  have hright : (run (step exampleEnv) Udp.new (crowded ++ answered)).any fun u =>
      u.sendQueue = [byteTo examplePeer 7, byteTo otherPeer 8] ∧
      (u.m_mapSender.get? otherPeer).isNone ∧
      ((checkSendQueue exampleEnv)^[3] u).takenFor otherPeer = [byteTo otherPeer 8] ∧
      (((checkSendQueue exampleEnv)^[3] u).sentTo otherPeer).length = 2 := by decide +kernel
  obtain ⟨u, hu, hchecks⟩ := (Option.any_eq_true _ _).mp hleft
  obtain ⟨u', hu', hchecks'⟩ := (Option.any_eq_true _ _).mp hright
  obtain ⟨hqueue, hnone, htaken, hsent⟩ := of_decide_eq_true hchecks
  obtain ⟨hqueue', hnone', htaken', hsent'⟩ := of_decide_eq_true hchecks'
  exact ⟨u, u', hu, hu', hqueue.trans hqueue'.symm, Option.isNone_iff_eq_none.mp hnone,
    Option.isNone_iff_eq_none.mp hnone', htaken, hsent, htaken', hsent'⟩

end Udp

end Hardcoder.UDP
