import Hardcoder.UdpReceive
import Mathlib.Data.Finset.Card
import Mathlib.Data.Fintype.Card

/-! The numbers in a sender's window. As long as the sender counts below `INT_MAX`, the
packets that wait for an acknowledgement have five consecutive numbers at most. -/

namespace Hardcoder.UDP
open Stream Runs Relation
set_option autoImplicit false

def INT_MAX : Nat := 2 ^ 31 - 1

theorem minSeq_le {window : Window} {i : Slot} {p : UdpPkg} (h : window i = some p) :
    minSeq window ≤ p.seq := by
  have hfold (slots : List Slot) (m : BitVec 32) :
      let least := slots.foldl
        (fun m i => ((window i).map fun p => if p.seq < m then p.seq else m).getD m) m
      least ≤ m ∧ ∀ j ∈ slots, ∀ q, window j = some q → least ≤ q.seq := by
    induction slots generalizing m with
    | nil => exact ⟨BitVec.le_refl m, fun j hj => by cases hj⟩
    | cons j slots ih =>
      obtain ⟨hle, hall⟩ := ih (((window j).map fun p => if p.seq < m then p.seq else m).getD m)
      have hhead : ((window j).map fun p => if p.seq < m then p.seq else m).getD m ≤ m ∧
          ∀ q, window j = some q →
            ((window j).map fun p => if p.seq < m then p.seq else m).getD m ≤ q.seq := by
        cases window j with
        | none => exact ⟨BitVec.le_refl m, fun q hq => by cases hq⟩
        | some p =>
          rw [Option.map_some, Option.getD_some]
          refine ⟨?_, fun q hq => ?_⟩
          · split <;> grind
          · obtain rfl := Option.some.inj hq
            split <;> grind
      refine ⟨BitVec.le_trans hle hhead.1, fun k hk q hq => ?_⟩
      rcases List.mem_cons.mp hk with rfl | hk
      · exact BitVec.le_trans hle (hhead.2 q hq)
      · exact hall k hk q hq
  exact (hfold (List.finRange CONST_WINDOW) 0x7fffffff).2 i (List.mem_finRange i) p h

/-- The signed comparison of `checkEmptyWindow` means what it says below `INT_MAX`. -/
theorem near_of_checkEmptyWindow {window : Window} {seq : BitVec 32} {i j : Slot} {p : UdpPkg}
    (h : checkEmptyWindow window seq = some i) (hseq : seq.toNat < 2 ^ 31)
    (hp : window j = some p) (hlt : p.seq.toNat < INT_MAX) :
    seq.toNat < p.seq.toNat + CONST_WINDOW := by
  have hmin := minSeq_le hp
  rw [BitVec.le_def] at hmin
  unfold INT_MAX at hlt
  unfold checkEmptyWindow at h
  split at h
  · cases h
  · split at h
    · cases h
    · rename_i hfull
      have hne : minSeq window ≠ 0x7fffffff := by
        intro heq
        rw [heq] at hmin
        change 2147483647 ≤ _ at hmin
        omega
      have hle := not_lt.mp (not_and.mp hfull hne)
      rw [BitVec.toInt_eq_toNat_cond, BitVec.toInt_eq_toNat_cond, BitVec.toNat_sub,
        BitVec.toNat_add, BitVec.toNat_ofNat] at hle
      have hone : (1 : BitVec 32).toNat = 1 := rfl
      rw [hone] at hle
      unfold CONST_WINDOW at hle ⊢
      split at hle <;> split at hle <;> omega

namespace Sender

/-- The packets outstanding have numbers of their own among the last five. -/
structure Windowed (ss : Sender) : Prop where
  start : 100000 ≤ ss.seq.toNat
  le : ∀ i p, ss.packets i = some p → p.seq.toNat ≤ ss.seq.toNat
  near : ∀ i p, ss.packets i = some p → ss.seq.toNat < p.seq.toNat + CONST_WINDOW
  unique : ∀ i j p q, ss.packets i = some p → ss.packets j = some q → p.seq = q.seq → i = j

theorem windowed_new (addr : SockAddr) : (Udp.newSender addr).Windowed := by
  refine ⟨Nat.le_refl 100000, fun i p hp => ?_, fun i p hp => ?_, fun i j p q hp => ?_⟩ <;> cases hp

/-- No number is given, packets may go. -/
structure Shrinks (ss ss' : Sender) : Prop where
  seq : ss'.seq = ss.seq
  kept : ∀ i p, ss'.packets i = some p → ss.packets i = some p

theorem Shrinks.of_packets {ss ss' : Sender} (hseq : ss'.seq = ss.seq)
    (hpackets : ss'.packets = ss.packets) : ss.Shrinks ss' :=
  ⟨hseq, fun _ _ hp => hpackets ▸ hp⟩

theorem Retimed.shrinks {ss ss' : Sender} (h : ss.Retimed ss') : ss.Shrinks ss' :=
  .of_packets h.seq h.same.packets

theorem shrinks_clear (ss : Sender) (addr : SockAddr) (i : Slot) : ss.Shrinks (ss.clear addr i) := by
  refine ⟨rfl, fun j p hp => ?_⟩
  rw [packets_clear] at hp
  by_cases hj : j = i
  · subst hj
    rw [Function.update_self] at hp
    cases hp
  · rwa [Function.update_of_ne hj] at hp

theorem Windowed.shrinks {ss ss' : Sender} (h : ss.Windowed) (hshrinks : ss.Shrinks ss') :
    ss'.Windowed := by
  refine ⟨hshrinks.seq ▸ h.start, fun i p hp => ?_, fun i p hp => ?_, fun i j p q hp hq => ?_⟩
  · rw [hshrinks.seq]
    exact h.le i p (hshrinks.kept i p hp)
  · rw [hshrinks.seq]
    exact h.near i p (hshrinks.kept i p hp)
  · exact h.unique i j p q (hshrinks.kept i p hp) (hshrinks.kept j q hq)

theorem Windowed.number {ss : Sender} (h : ss.Windowed) {i : Slot}
    (hslot : checkEmptyWindow ss.packets (ss.seq + 1) = some i) (hlt : ss.seq.toNat < INT_MAX)
    (pkg : UdpPkg) (queue : List UdpPkg) : (ss.number i pkg queue).Windowed := by
  have hnext : (ss.seq + 1).toNat = ss.seq.toNat + 1 := by
    unfold INT_MAX at hlt
    rw [BitVec.toNat_add]
    change (_ + 1) % _ = _
    omega
  have hnear {j : Slot} {p : UdpPkg} (hp : ss.packets j = some p) :
      (ss.seq + 1).toNat < p.seq.toNat + CONST_WINDOW := by
    have hle := h.le j p hp
    unfold INT_MAX at hlt
    refine near_of_checkEmptyWindow hslot (by omega) hp ?_
    unfold INT_MAX
    omega
  -- a packet is the new one or was there before
  have hcases {j : Slot} {p : UdpPkg} (hp : (ss.number i pkg queue).packets j = some p) :
      j = i ∧ p.seq = ss.seq + 1 ∨ ss.packets j = some p := by
    rw [packets_number] at hp
    by_cases hj : j = i
    · subst hj
      rw [Function.update_self] at hp
      obtain rfl := Option.some.inj hp
      exact .inl ⟨rfl, rfl⟩
    · rw [Function.update_of_ne hj] at hp
      exact .inr hp
  have hseq : (ss.number i pkg queue).seq.toNat = ss.seq.toNat + 1 := hnext
  have hother {j : Slot} {p : UdpPkg} (hp : ss.packets j = some p) : p.seq ≠ ss.seq + 1 := by
    intro heq
    have hle := h.le j p hp
    rw [heq, hnext] at hle
    omega
  refine ⟨?_, fun j p hp => ?_, fun j p hp => ?_, fun j k p q hp hq heq => ?_⟩
  · rw [hseq]
    exact h.start.trans (Nat.le_succ _)
  · rw [hseq]
    rcases hcases hp with ⟨-, hnew⟩ | hold
    · rw [hnew, hnext]
    · exact (h.le j p hold).trans (Nat.le_succ _)
  · rw [hseq]
    rcases hcases hp with ⟨-, hnew⟩ | hold
    · rw [hnew, hnext]
      unfold CONST_WINDOW
      omega
    · exact hnext ▸ hnear hold
  · rcases hcases hp with ⟨hj, hnew⟩ | hold <;> rcases hcases hq with ⟨hk, hnew'⟩ | hold'
    · exact hj.trans hk.symm
    · exact absurd (heq.symm.trans hnew) (hother hold')
    · exact absurd (heq.trans hnew') (hother hold)
    · exact h.unique j k p q hold hold' heq

/-- A packet of the window is found by its number. -/
theorem Windowed.getWindowBySeq {ss : Sender} (h : ss.Windowed) {i : Slot} {p : UdpPkg}
    (hp : ss.packets i = some p) : UDP.getWindowBySeq ss.packets p.seq = some i := by
  refine getWindowBySeq_eq_some_iff.mpr ⟨⟨p, hp, rfl⟩, fun j hj q hq hseq => ?_⟩
  exact ne_of_lt hj (h.unique j i q p hq hp hseq)

/-- How many packets may still be numbered before one is acknowledged. -/
def room (ss : Sender) : Nat := (Finset.univ.filter fun i => (ss.packets i).isNone).card

theorem room_le (ss : Sender) : ss.room ≤ CONST_WINDOW :=
  (Finset.card_le_univ _).trans_eq (Fintype.card_fin _)

theorem room_congr {ss ss' : Sender} (h : ss'.packets = ss.packets) : ss'.room = ss.room := by
  rw [room, room, h]

theorem room_number {ss : Sender} {i : Slot} (hfree : ss.packets i = none) (pkg : UdpPkg)
    (queue : List UdpPkg) : (ss.number i pkg queue).room < ss.room := by
  refine Finset.card_lt_card (Finset.ssubset_iff_subset_ne.mpr ⟨fun j hj => ?_, fun heq => ?_⟩)
  · rw [Finset.mem_filter, packets_number] at hj
    rw [Finset.mem_filter]
    by_cases hji : j = i
    · subst hji
      exact ⟨Finset.mem_univ j, by rw [hfree]; rfl⟩
    · rw [Function.update_of_ne hji] at hj
      exact hj
  · have hi : i ∈ Finset.univ.filter fun i => (ss.packets i).isNone :=
      Finset.mem_filter.mpr ⟨Finset.mem_univ i, by rw [hfree]; rfl⟩
    rw [← heq, Finset.mem_filter, packets_number, Function.update_self] at hi
    cases hi.2

end Sender

namespace Udp

/-- The sender has not counted to `INT_MAX`. -/
def Below (u : Udp) (b : SockAddr) : Prop :=
  ∀ ss ∈ u.m_mapSender.get? b, ss.seq.toNat < INT_MAX

instance (u : Udp) (b : SockAddr) : Decidable (u.Below b) :=
  inferInstanceAs (Decidable (∀ ss ∈ u.m_mapSender.get? b, _))

def Windowed (u : Udp) (b : SockAddr) : Prop := ∀ ss ∈ u.m_mapSender.get? b, ss.Windowed

theorem below_new (b : SockAddr) : Udp.new.Below b := by
  intro ss hss
  cases hss

theorem windowed_new (b : SockAddr) : Udp.new.Windowed b := by
  intro ss hss
  cases hss

/-- What a step of `checkSendQueue` does to the sender of a peer. -/
inductive SenderStep (b : SockAddr) : Option Sender → Option Sender → Prop where
  | kept {x x' : Option Sender} (h : Option.Rel Sender.Retimed x x') : SenderStep b x x'
  | created {ss' : Sender} (h : (newSender b).Retimed ss') : SenderStep b none (some ss')
  | filled (ss : Sender) (queue : List UdpPkg) :
      SenderStep b (some ss) (some { ss with dataQueue := queue })
  | numbered {ss ss' : Sender} {i : Slot} {pkg : UdpPkg} {queue : List UdpPkg}
      (hslot : checkEmptyWindow ss.packets (ss.seq + 1) = some i)
      (h : (ss.number i pkg queue).Retimed ss') : SenderStep b (some ss) (some ss')

section Steps
variable {env : Env} {u v : Udp} {b : SockAddr}

theorem rel_retimed_refl (x : Option Sender) : Option.Rel Sender.Retimed x x := by
  cases x with
  | none => exact .none
  | some ss => exact .some (.refl ss)

theorem SendStep.senderStep (h : SendStep env u v) (b : SockAddr) :
    SenderStep b (u.m_mapSender.get? b) (v.m_mapSender.get? b) := by
  cases h with
  | create addr =>
    unfold getSender
    split
    · exact .kept (rel_retimed_refl _)
    · rename_i hnone
      have hsent := get?_sendPackage env addr (UdpPkg.new.stamp PACKAGE_SYN 100000) b
        (u := { u with m_mapSender := u.m_mapSender.set addr (newSender addr) })
      by_cases hb : b = addr
      · subst hb
        rw [SortedMap.get?_set_self] at hsent
        rw [hnone]
        generalize (Udp.sendPackage _ _ _ _).1.m_mapSender.get? b = x at hsent ⊢
        cases hsent with
        | some hretimed => exact .created hretimed
      · rw [SortedMap.get?_set_of_ne _ hb] at hsent
        exact .kept hsent
  | @take pack rest ss hqueue hss hempty =>
    rw [modifySender_eq_set u _ hss]
    by_cases hb : b = pack.toAddr
    · subst hb
      rw [hss]
      change SenderStep _ _ (SortedMap.get? (u.m_mapSender.set _ _) _)
      rw [SortedMap.get?_set_self]
      exact .filled ss _
    · change SenderStep _ _ (SortedMap.get? (u.m_mapSender.set _ _) _)
      rw [SortedMap.get?_set_of_ne _ hb]
      exact .kept (rel_retimed_refl _)
  | number hnumber =>
    obtain ⟨hss, hqueue, hslot⟩ := hnumber
    rename_i addr ss pkg queue i
    have hsent := get?_sendPackage env ss.toaddr (pkg.stamp PACKAGE_DATA (ss.seq + 1)) b
      (u := { u with m_mapSender := u.m_mapSender.set addr (ss.number i pkg queue) })
    by_cases hb : b = addr
    · subst hb
      rw [SortedMap.get?_set_self] at hsent
      rw [hss]
      generalize (Udp.sendPackage _ _ _ _).1.m_mapSender.get? b = x at hsent ⊢
      cases hsent with
      | some hretimed => exact .numbered hslot hretimed
    · rw [SortedMap.get?_set_of_ne _ hb] at hsent
      exact .kept hsent

/-- Every number to come before an acknowledgement is one the counter can hold. -/
def Spare (u : Udp) (b : SockAddr) : Prop :=
  ∀ ss ∈ u.m_mapSender.get? b, ss.seq.toNat + ss.room < INT_MAX + CONST_WINDOW

theorem Below.spare (h : u.Below b) : u.Spare b :=
  fun ss hss => Nat.add_lt_add_of_lt_of_le (h ss hss) ss.room_le

theorem seq_number {ss : Sender} {i : Slot} (hspare : ss.seq.toNat + ss.room < INT_MAX + CONST_WINDOW)
    (pkg : UdpPkg) (queue : List UdpPkg) :
    (ss.number i pkg queue).seq.toNat = ss.seq.toNat + 1 := by
  unfold INT_MAX CONST_WINDOW at hspare
  change (ss.seq + 1).toNat = _
  rw [BitVec.toNat_add]
  change (_ + 1) % _ = _
  omega

theorem SenderStep.spare {x x' : Option Sender} (h : SenderStep b x x')
    (hspare : ∀ ss ∈ x, ss.seq.toNat + ss.room < INT_MAX + CONST_WINDOW) :
    (∀ ss ∈ x', ss.seq.toNat + ss.room < INT_MAX + CONST_WINDOW) ∧
      ((∀ ss ∈ x', ss.seq.toNat < INT_MAX) → ∀ ss ∈ x, ss.seq.toNat < INT_MAX) := by
  cases h with
  | kept h =>
    cases h with
    | none => exact ⟨hspare, id⟩
    | some hretimed =>
      simp only [Option.mem_some_iff, forall_eq'] at hspare ⊢
      rw [Sender.room_congr hretimed.same.packets, hretimed.seq]
      exact ⟨hspare, id⟩
  | created h =>
    simp only [Option.mem_some_iff, forall_eq']
    refine ⟨?_, fun _ ss hss => by cases hss⟩
    have hroom := (newSender b).room_le
    rw [Sender.room_congr h.same.packets, h.seq]
    change 100000 + _ < _
    unfold INT_MAX CONST_WINDOW at *
    omega
  | filled ss queue =>
    simp only [Option.mem_some_iff, forall_eq'] at hspare ⊢
    exact ⟨hspare, id⟩
  | @numbered ss ss' i pkg queue hslot h =>
    simp only [Option.mem_some_iff, forall_eq'] at hspare ⊢
    have hroom := Sender.room_number (packets_of_checkEmptyWindow hslot) pkg queue
    have hseq := @seq_number ss i hspare pkg queue
    rw [Sender.room_congr h.same.packets, h.seq]
    omega

/-- What holds before a pass of `checkSendQueue` in which no number reaches `INT_MAX` and
is kept by its steps holds after it. -/
theorem steps_below {Inv : Udp → Prop} {bs : SockAddr → Prop}
    (hstep : ∀ {v w}, (∀ b, bs b → v.Below b) → Inv v → SendStep env v w → Inv w)
    (hu : ∀ b, bs b → u.Below b) (hinv : Inv u) (h : ReflTransGen (SendStep env) u v)
    (hv : ∀ b, bs b → v.Below b) : Inv v := by
  have hall := @steps_invariant _ (SendStep env)
    (fun v => (∀ b, bs b → v.Spare b) ∧ ((∀ b, bs b → v.Below b) → Inv v))
    (fun {w w'} hw hww' => ?_) _ _ ⟨fun b hb => (hu b hb).spare, fun _ => hinv⟩ h
  · exact hall.2 hv
  · obtain ⟨hspare, hw⟩ := hw
    have hnext (b : SockAddr) (hb : bs b) := (hww'.senderStep b).spare (hspare b hb)
    refine ⟨fun b hb => (hnext b hb).1, fun hbelow => ?_⟩
    have hbefore : ∀ b, bs b → w.Below b := fun b hb => (hnext b hb).2 (hbelow b hb)
    exact hstep hbefore (hw hbefore) hww'

theorem SenderStep.windowed {x x' : Option Sender} (h : SenderStep b x x')
    (hbelow : ∀ ss ∈ x, ss.seq.toNat < INT_MAX) (hwindowed : ∀ ss ∈ x, ss.Windowed) :
    ∀ ss ∈ x', ss.Windowed := by
  cases h with
  | kept h =>
    cases h with
    | none => exact hwindowed
    | some hretimed =>
      simp only [Option.mem_some_iff, forall_eq'] at hwindowed ⊢
      exact hwindowed.shrinks hretimed.shrinks
  | created h =>
    simp only [Option.mem_some_iff, forall_eq']
    exact (Sender.windowed_new b).shrinks h.shrinks
  | filled ss queue =>
    simp only [Option.mem_some_iff, forall_eq'] at hwindowed ⊢
    exact hwindowed.shrinks (.of_packets rfl rfl)
  | numbered hslot h =>
    simp only [Option.mem_some_iff, forall_eq'] at hbelow hwindowed ⊢
    exact (hwindowed.number hslot hbelow _ _).shrinks h.shrinks

theorem loopHead_windowed (hwindowed : u.Windowed b) (hu : u.Below b)
    (hv : (u.loopHead env).1.Below b) : (u.loopHead env).1.Windowed b := by
  have hsteps := checkSendQueue_steps env { u with ticks := u.ticks + 1 }
  refine @steps_below env { u with ticks := u.ticks + 1 } _ (fun v => v.Windowed b) (· = b)
    (fun hbelow hwindowed hstep => ?_) (fun _ hb => hb ▸ hu) hwindowed hsteps fun _ hb => hb ▸ hv
  exact (hstep.senderStep b).windowed (hbelow b rfl) hwindowed

/-- Behind `checkSendQueue` no packet is numbered. -/
def Shrinks (u v : Udp) : Prop :=
  ∀ b, Option.Rel Sender.Shrinks (u.m_mapSender.get? b) (v.m_mapSender.get? b)

theorem Shrinks.of_senders (h : v.m_mapSender = u.m_mapSender) : Shrinks u v := by
  intro b
  rw [h]
  cases u.m_mapSender.get? b with
  | none => exact .none
  | some ss => exact .some (.of_packets rfl rfl)

theorem Shrinks.modifySender {addr : SockAddr} {ss : Sender} {f : Sender → Sender}
    (hss : u.m_mapSender.get? addr = some ss) (hf : ss.Shrinks (f ss)) :
    Shrinks u (u.modifySender addr f) := by
  intro b
  by_cases hb : b = addr
  · subst hb
    rw [get?_modifySender_self u f hss, hss]
    exact .some hf
  · rw [get?_modifySender_of_ne u f hb]
    exact Shrinks.of_senders rfl b

theorem Shrinks.trans {w : Udp} (h : Shrinks u v) (h' : Shrinks v w) : Shrinks u w := by
  intro b
  have hb := h b
  have hb' := h' b
  generalize u.m_mapSender.get? b = x at hb ⊢
  generalize v.m_mapSender.get? b = y at hb hb'
  generalize w.m_mapSender.get? b = z at hb' ⊢
  cases hb with
  | none =>
    cases hb'
    exact .none
  | some hs =>
    cases hb' with
    | some hs' => exact .some ⟨hs'.seq.trans hs.seq, fun i p hp => hs.kept i p (hs'.kept i p hp)⟩

theorem Shrinks.below (h : Shrinks u v) (hv : v.Below b) : u.Below b := by
  have hb := h b
  unfold Below at hv ⊢
  generalize u.m_mapSender.get? b = x at hb ⊢
  generalize v.m_mapSender.get? b = y at hb hv
  cases hb with
  | none => exact hv
  | some hs =>
    simp only [Option.mem_some_iff, forall_eq'] at hv ⊢
    rwa [hs.seq] at hv

theorem Shrinks.windowed (h : Shrinks u v) (hu : u.Windowed b) : v.Windowed b := by
  have hb := h b
  unfold Udp.Windowed at hu ⊢
  generalize u.m_mapSender.get? b = x at hb hu
  generalize v.m_mapSender.get? b = y at hb ⊢
  cases hb with
  | none => exact hu
  | some hs =>
    simp only [Option.mem_some_iff, forall_eq'] at hu ⊢
    exact hu.shrinks hs

theorem sendPackage_shrinks (u : Udp) (addr : SockAddr) (pkg : UdpPkg) :
    Shrinks u (u.sendPackage env addr pkg).1 := by
  intro b
  have hb := get?_sendPackage env addr pkg b (u := u)
  generalize u.m_mapSender.get? b = x at hb ⊢
  generalize (u.sendPackage env addr pkg).1.m_mapSender.get? b = y at hb ⊢
  cases hb with
  | none => exact .none
  | some hretimed => exact .some hretimed.shrinks

theorem finish_shrinks (r : Udp × Int) : Shrinks r.1 (finish r) := by
  unfold finish
  split <;> exact .of_senders rfl

theorem fire_shrinks (h : Consistent u) {e : EventId} (he : e ∈ u.m_eventTimerList) :
    Shrinks u (u.fire env e) := by
  have hdone {r : Udp × Int} (hr : Shrinks u r.1) :
      Shrinks u (finish (r.1.deleteTimeoutEvent e, r.2)) :=
    (hr.trans (.of_senders rfl)).trans (finish_shrinks (r.1.deleteTimeoutEvent e, r.2))
  have hfired := processTimeout_cases env h he
  unfold Udp.fire
  generalize u.processTimeout env e = r at hfired
  cases hfired with
  | stop => exact hdone (.of_senders rfl)
  | @report ss p hss hp hcurrent htries =>
    have hreport : Shrinks u { u with raised := u.raised ++ [.timeout e.addr p.sessionid] } :=
      .of_senders rfl
    exact hdone hreport
  | @retry ss p hss hp hcurrent =>
    refine hdone (Shrinks.trans ?_ (sendPackage_shrinks _ _ _))
    exact .modifySender hss (ss.updateEvent_retimed _ e hp.symm).shrinks

theorem receiveAck_shrinks (h : Consistent u) (sender : SockAddr) (p : UdpPkg) :
    Shrinks u (u.receiveAck sender p) := by
  have hfree {ss : Sender} (hss : u.m_mapSender.get? sender = some ss) (i : Slot) :
      Shrinks u (u.freeSlot sender i) :=
    .modifySender (u := u.deleteTimeoutEvent (.slot sender i)) hss (ss.shrinks_clear sender i)
  have hacked := @receiveAck_cases u sender p h
  generalize u.receiveAck sender p = v at hacked
  cases hacked with
  | ignored => exact .of_senders rfl
  | opened hss hstatus hseq =>
    exact .modifySender (u := u.deleteTimeoutEvent (.syn sender)) hss (.of_packets rfl rfl)
  | freed hss hstatus hi hmore => exact hfree hss _
  | finished hss hstatus hi hlast => exact (hfree hss _).trans (.of_senders rfl)

theorem processReceive_shrinks (h : Consistent u) (sender : SockAddr) (d : Delivery UInt8) :
    Shrinks u (u.processReceive env sender d).1 := by
  obtain ⟨accesses, hhandled⟩ := processReceive_cases env u sender d
  have hu : Consistent { u with accesses := accesses } := h.congr rfl rfl rfl
  generalize u.processReceive env sender d = r at hhandled
  cases hhandled with
  | ignored => exact .of_senders rfl
  | syn htype => exact .of_senders (receiveSyn_side env hu htype).m_mapSender
  | data htype => exact .of_senders (receiveData_side env hu htype _).m_mapSender
  | fin htype => exact .of_senders (receiveFin_side env hu htype).m_mapSender
  | ack htype => exact receiveAck_shrinks hu _ _

theorem step_windowed (h : Consistent u) (hwindowed : u.Windowed b) (hu : u.Below b)
    {a : Action} (hstep : u.step env a = some v) (hv : v.Below b) : v.Windowed b := by
  have hrest (hshrinks : Shrinks (u.loopHead env).1 v) : v.Windowed b :=
    hshrinks.windowed (loopHead_windowed hwindowed hu (hshrinks.below hv))
  cases step_cases hstep with
  | send pack hroom => exact hwindowed
  | idle hrunning hdue => exact hrest (.of_senders rfl)
  | fire e hrunning hdue =>
    obtain ⟨he, -⟩ := Option.filter_eq_some_iff.mp hdue
    exact hrest (fire_shrinks (h.loopHead env) (List.mem_of_head? he))
  | receive sender d hrunning hdue =>
    have hreceive : Shrinks (u.loopHead env).1 ((u.loopHead env).1.processReceive env sender d).1 :=
      processReceive_shrinks (h.loopHead env) sender d
    exact hrest (hreceive.trans (finish_shrinks _))

end Steps

end Udp

end Hardcoder.UDP
