import Hardcoder.UdpReceive
import Hardcoder.UdpReassembly
import Mathlib.Data.Fintype.EquivFin

/-! The sending half of a connection: every fragment gets its number once, and the
fragments not known to be received wait in the window. -/

namespace Hardcoder.UDP
open Stream
set_option autoImplicit false

/-- The `k`-th fragment to a peer as it is sent. -/
def dataPkg (f : UdpPkg) (k : Nat) : UdpPkg := f.stamp PACKAGE_DATA (BitVec.ofNat 32 (100001 + k))

def synPkg : UdpPkg := UdpPkg.new.stamp PACKAGE_SYN 100000

theorem ofNat_succ (n : Nat) : BitVec.ofNat 32 n + 1 = BitVec.ofNat 32 (n + 1) := by
  apply BitVec.eq_of_toNat_eq
  simp

/-- The packet carries the `k`-th of the fragments. -/
def Numbered (frags : List UdpPkg) (k : Nat) (p : UdpPkg) : Prop :=
  ∃ f, frags[k]? = some f ∧ p = dataPkg f k

theorem Numbered.seq {frags : List UdpPkg} {k : Nat} {p : UdpPkg} (h : Numbered frags k p) :
    p.seq = BitVec.ofNat 32 (100001 + k) := by
  obtain ⟨f, -, rfl⟩ := h
  rfl

theorem Numbered.extend {frags more : List UdpPkg} {k : Nat} {p : UdpPkg}
    (h : Numbered frags k p) (hmore : frags <+: more) : Numbered more k p := by
  obtain ⟨f, hf, rfl⟩ := h
  obtain ⟨rest, rfl⟩ := hmore
  refine ⟨f, ?_, rfl⟩
  rw [List.getElem?_append_left (List.getElem?_eq_some_iff.mp hf).1, hf]

/-- A packet that may be on its way to the peer. -/
inductive Known (frags : List UdpPkg) (m : Nat) (p : UdpPkg) : Prop where
  | ack (htype : p.type = PACKAGE_ACK) : Known frags m p
  | syn (hp : p = synPkg) : Known frags m p
  | data {k : Nat} (hk : k < m) (hp : Numbered frags k p) : Known frags m p

theorem Known.extend {frags more : List UdpPkg} {m m' : Nat} {p : UdpPkg} (h : Known frags m p)
    (hmore : frags <+: more) (hm : m ≤ m') : Known more m' p := by
  cases h with
  | ack htype => exact .ack htype
  | syn hp => exact .syn hp
  | data hk hp => exact .data (Nat.lt_of_lt_of_le hk hm) (hp.extend hmore)

/-- Of the fragments `m` have their numbers; those from `high` on have not been
acknowledged, those in `done` have. -/
structure Sender.Sends (ss : Sender) (frags : List UdpPkg) (m high : Nat) (done : List Nat) :
    Prop where
  seq : ss.seq = BitVec.ofNat 32 (100000 + m)
  queue : ss.dataQueue = frags.drop m
  slots : ∀ i p, ss.packets i = some p → ∃ k < m, Numbered frags k p
  waiting : ∀ k, high ≤ k → k < m → ∃ i p, ss.packets i = some p ∧ Numbered frags k p
  unique : ∀ k < m, ∀ i j p q, ss.packets i = some p → ss.packets j = some q →
    Numbered frags k p → Numbered frags k q → i = j
  gone : ∀ k ∈ done, ∀ i p, ss.packets i = some p → ¬ Numbered frags k p

theorem Sender.Sends.retimed {ss ss' : Sender} {frags : List UdpPkg} {m high : Nat}
    {done : List Nat} (h : ss.Sends frags m high done) (hretimed : ss.Retimed ss') :
    ss'.Sends frags m high done := by
  have hpackets := hretimed.same.packets
  exact ⟨hretimed.seq.trans h.seq, hretimed.dataQueue.trans h.queue, hpackets ▸ h.slots,
    hpackets ▸ h.waiting, hpackets ▸ h.unique, hpackets ▸ h.gone⟩

theorem Numbered.inj {frags : List UdpPkg} {k k' : Nat} {p : UdpPkg} (h : Numbered frags k p)
    (h' : Numbered frags k' p) (hk : k < 2 ^ 32) (hk' : k' < 2 ^ 32) : k = k' := by
  have hval := congrArg BitVec.toNat (h.seq.symm.trans h'.seq)
  rw [BitVec.toNat_ofNat, BitVec.toNat_ofNat] at hval
  omega

theorem Sender.Sends.lt {ss : Sender} {frags : List UdpPkg} {m high : Nat} {done : List Nat}
    (h : ss.Sends frags m high done) (hm : m < 2 ^ 32) {i : Slot} {p : UdpPkg}
    (hp : ss.packets i = some p) {k : Nat} (hk : k < 2 ^ 32) (hnum : Numbered frags k p) : k < m := by
  obtain ⟨k', hk', hnum'⟩ := h.slots i p hp
  rw [hnum.inj hnum' hk (hk'.trans hm)]
  exact hk'

theorem Sender.Sends.extend {ss : Sender} {frags more : List UdpPkg} {m high : Nat}
    {done : List Nat} (h : ss.Sends frags m high done) (hm : m < 2 ^ 32)
    (hdone : ∀ k ∈ done, k < m) (hmore : frags <+: more) :
    { ss with dataQueue := more.drop m }.Sends more m high done := by
  have hold {i : Slot} {p : UdpPkg} {k : Nat} (hk : k < m) (hp : ss.packets i = some p)
      (hnum : Numbered more k p) : Numbered frags k p := by
    obtain ⟨k', hk', hnum'⟩ := h.slots i p hp
    obtain rfl := hnum.inj (hnum'.extend hmore) (hk.trans hm) (hk'.trans hm)
    exact hnum'
  refine ⟨h.seq, rfl, fun i p hp => ?_, fun k hlo hk => ?_, fun k hk i j p q hp hq hpk hqk => ?_,
    fun k hk i p hp hnum => ?_⟩
  · obtain ⟨k, hk, hnum⟩ := h.slots i p hp
    exact ⟨k, hk, hnum.extend hmore⟩
  · obtain ⟨i, p, hp, hnum⟩ := h.waiting k hlo hk
    exact ⟨i, p, hp, hnum.extend hmore⟩
  · exact h.unique k hk i j p q hp hq (hold hk hp hpk) (hold hk hq hqk)
  · exact h.gone k hk i p hp (hold (hdone k hk) hp hnum)

namespace Udp

/-- The fragments of all messages taken for the peer. -/
def fragmentsTo (u : Udp) (b : SockAddr) : List UdpPkg :=
  (u.taken.filter (·.toAddr = b)).flatMap (·.fragments)

/-- The sessions reported as finished to the peer. -/
def finishes (u : Udp) (b : SockAddr) : List (BitVec 64) :=
  u.raised.filterMap fun
    | .sessionFinish addr sessionid => if addr = b then some sessionid else none
    | _ => none

structure Sending (b : SockAddr) (m high : Nat) (done : List Nat) (u : Udp) : Prop where
  sender : (u.m_mapSender.get? b = none ∧ u.fragmentsTo b = [] ∧ m = 0) ∨
    ∃ ss, u.m_mapSender.get? b = some ss ∧ ss.Sends (u.fragmentsTo b) m high done
  high_lt : high + 100001 ≤ 2 ^ 32
  high_le : high ≤ m
  m_le : m ≤ high + CONST_WINDOW
  m_le_length : m ≤ (u.fragmentsTo b).length
  low : ∀ k ∈ done, k < high
  sent : ∀ bytes, (b, bytes) ∈ u.sent → ∃ p, Known (u.fragmentsTo b) m p ∧ bytes = p.bytes

namespace Sending
variable {env : Env} {u v : Udp} {b : SockAddr} {m high : Nat} {done : List Nat}

theorem m_lt (h : Sending b m high done u) : m < 2 ^ 32 := by
  have hhigh := h.high_lt
  have hle := h.m_le
  unfold CONST_WINDOW at hle
  omega

theorem lt_of_done (h : Sending b m high done u) : ∀ k ∈ done, k < m :=
  fun k hk => Nat.lt_of_lt_of_le (h.low k hk) h.high_le

theorem frame (h : Sending b m high done u) (htaken : v.taken = u.taken)
    (hsender : Option.Rel Sender.Retimed (u.m_mapSender.get? b) (v.m_mapSender.get? b))
    (hsent : ∀ bytes, (b, bytes) ∈ v.sent →
      (b, bytes) ∈ u.sent ∨ ∃ p, Known (u.fragmentsTo b) m p ∧ bytes = p.bytes) :
    Sending b m high done v := by
  have hfrags : v.fragmentsTo b = u.fragmentsTo b := by rw [fragmentsTo, fragmentsTo, htaken]
  refine ⟨?_, h.high_lt, h.high_le, h.m_le, hfrags ▸ h.m_le_length, h.low, fun bytes hbytes => ?_⟩
  · rw [hfrags]
    rcases h.sender with ⟨hnone, hempty, hm⟩ | ⟨ss, hss, hsends⟩
    · rw [hnone] at hsender
      cases hv : v.m_mapSender.get? b with
      | none => exact .inl ⟨rfl, hempty, hm⟩
      | some ss =>
        rw [hv] at hsender
        cases hsender
    · rw [hss] at hsender
      cases hv : v.m_mapSender.get? b with
      | none =>
        rw [hv] at hsender
        cases hsender
      | some ss' =>
        rw [hv] at hsender
        cases hsender with
        | some hretimed => exact .inr ⟨ss', rfl, hsends.retimed hretimed⟩
  · rw [hfrags]
    exact (hsent bytes hbytes).elim (h.sent bytes) id

theorem congr (h : Sending b m high done u) (htaken : v.taken = u.taken)
    (hsender : v.m_mapSender.get? b = u.m_mapSender.get? b) (hsent : v.sent = u.sent) :
    Sending b m high done v := by
  refine h.frame htaken ?_ fun bytes hbytes => .inl (hsent ▸ hbytes)
  rw [hsender]
  cases u.m_mapSender.get? b with
  | none => exact .none
  | some ss => exact .some (.refl ss)

theorem sendPackage (h : Sending b m high done u) {addr : SockAddr} {pkg : UdpPkg}
    (hpkg : addr = b → Known (u.fragmentsTo b) m pkg) :
    Sending b m high done (u.sendPackage env addr pkg).1 := by
  refine h.frame (taken_sendPackage env addr pkg) (get?_sendPackage env addr pkg b)
    fun bytes hbytes => ?_
  rcases mem_sent_sendPackage env hbytes with hold | hnew
  · exact .inl hold
  · obtain ⟨haddr, hbytes⟩ := Prod.mk.inj hnew
    exact .inr ⟨pkg, hpkg haddr.symm, hbytes⟩

theorem getSender (h : Sending b m high done u) (addr : SockAddr) :
    Sending b m high done (u.getSender env addr) := by
  unfold Udp.getSender
  cases hss : u.m_mapSender.get? addr with
  | some ss => exact h
  | none =>
    refine sendPackage ?_ fun _ => .syn rfl
    by_cases hb : b = addr
    · subst hb
      rcases h.sender with ⟨-, hempty, rfl⟩ | ⟨ss, hsome, -⟩
      · refine ⟨.inr ⟨newSender b, SortedMap.get?_set_self _ _ _, ?_⟩, h.high_lt, h.high_le, h.m_le,
          h.m_le_length, h.low, h.sent⟩
        have hqueue : (newSender b).dataQueue = (u.fragmentsTo b).drop 0 := by
          rw [hempty]
          rfl
        refine ⟨rfl, hqueue, fun i p hp => ?_, fun k _ hk => absurd hk (Nat.not_lt_zero k),
          fun k hk => absurd hk (Nat.not_lt_zero k), fun k hk i p hp => ?_⟩
        · cases hp
        · cases hp
      · cases hss.symm.trans hsome
    · exact h.congr rfl (SortedMap.get?_set_of_ne _ hb _) rfl

/-- A message for the peer is taken when all fragments before it have their numbers. -/
theorem take (h : Sending b m high done u) {pack : SendPack} {rest : List SendPack} {ss : Sender}
    (hss : u.m_mapSender.get? pack.toAddr = some ss) (hempty : ss.dataQueue = []) :
    u.fragmentsTo b <+: Udp.fragmentsTo
        { u.modifySender pack.toAddr fun ss => { ss with dataQueue := pack.fragments } with
          sendQueue := rest, taken := u.taken ++ [pack] } b ∧
      Sending b m high done
        { u.modifySender pack.toAddr fun ss => { ss with dataQueue := pack.fragments } with
          sendQueue := rest, taken := u.taken ++ [pack] } := by
  rw [modifySender_eq_set u _ hss]
  by_cases hb : pack.toAddr = b
  · subst hb
    have hfrags : Udp.fragmentsTo { u with
        m_mapSender := u.m_mapSender.set pack.toAddr { ss with dataQueue := pack.fragments }
        sendQueue := rest, taken := u.taken ++ [pack] } pack.toAddr =
          u.fragmentsTo pack.toAddr ++ pack.fragments := by
      simp [Udp.fragmentsTo]
    have hmore : u.fragmentsTo pack.toAddr <+: u.fragmentsTo pack.toAddr ++ pack.fragments :=
      List.prefix_append _ _
    rcases h.sender with ⟨hnone, -, -⟩ | ⟨ss', hss', hsends⟩
    · cases hnone.symm.trans hss
    · obtain rfl := Option.some.inj (hss'.symm.trans hss)
      have hall : (u.fragmentsTo pack.toAddr).length = m := by
        have hdrop := hsends.queue.symm.trans hempty
        have hlen := List.drop_eq_nil_iff.mp hdrop
        have hle := h.m_le_length
        omega
      refine ⟨hfrags ▸ hmore, ⟨.inr ⟨_, SortedMap.get?_set_self _ _ _, ?_⟩, h.high_lt, h.high_le,
        h.m_le, ?_, h.low, fun bytes hbytes => ?_⟩⟩
      · rw [hfrags]
        have hqueue : (u.fragmentsTo pack.toAddr ++ pack.fragments).drop m = pack.fragments := by
          rw [← hall, List.drop_left]
        have hextend := hsends.extend h.m_lt h.lt_of_done hmore
        rwa [hqueue] at hextend
      · rw [hfrags, List.length_append]
        omega
      · rw [hfrags]
        obtain ⟨p, hp, heq⟩ := h.sent bytes hbytes
        exact ⟨p, hp.extend hmore (Nat.le_refl m), heq⟩
  · have hfrags : Udp.fragmentsTo { u with
        m_mapSender := u.m_mapSender.set pack.toAddr { ss with dataQueue := pack.fragments }
        sendQueue := rest, taken := u.taken ++ [pack] } b = u.fragmentsTo b := by
      simp [Udp.fragmentsTo, hb]
    have hget : SortedMap.get? (u.m_mapSender.set pack.toAddr
        { ss with dataQueue := pack.fragments }) b = u.m_mapSender.get? b :=
      SortedMap.get?_set_of_ne _ (Ne.symm hb) _
    refine ⟨hfrags ▸ List.prefix_rfl,
      ⟨?_, h.high_lt, h.high_le, h.m_le, hfrags ▸ h.m_le_length, h.low, ?_⟩⟩
    · rw [hfrags, hget]
      exact h.sender
    · rw [hfrags]
      exact h.sent

theorem lt_window {ss : Sender} {frags : List UdpPkg} (hsends : ss.Sends frags m high done)
    (hm : m ≤ high + CONST_WINDOW) {i : Slot} (hi : ss.packets i = none) :
    m < high + CONST_WINDOW := by
  by_contra hfull
  have hwaiting (j : Slot) : ∃ i p, ss.packets i = some p ∧ Numbered frags (high + j.val) p :=
    hsends.waiting _ (Nat.le_add_right _ _) (by omega)
  choose slot pkg hpkg hnum using hwaiting
  have hinj : Function.Injective slot := by
    intro j k hjk
    have hsame := (hpkg j).symm.trans (hjk ▸ hpkg k)
    have hseq := (hnum j).seq.symm.trans ((congrArg UdpPkg.seq (Option.some.inj hsame)).trans
      (hnum k).seq)
    have hval := congrArg BitVec.toNat hseq
    rw [BitVec.toNat_ofNat, BitVec.toNat_ofNat] at hval
    have hj := j.isLt
    have hk := k.isLt
    unfold CONST_WINDOW at hj hk
    exact Fin.ext (by omega)
  obtain ⟨j, hj⟩ := Finite.surjective_of_injective hinj i
  rw [← hj, hpkg j] at hi
  cases hi

theorem number (h : Sending b m high done u) {u' : Udp} (hconsistent : Consistent u)
    (hnumber : Number env u u') :
    u'.fragmentsTo b = u.fragmentsTo b ∧ ∃ m', Sending b m' high done u' := by
  obtain ⟨hss, hqueue, hslot⟩ := hnumber
  rename_i addr ss pkg queue i
  rw [(hconsistent.senders addr ss hss).toaddr]
  have hfrags (w : UdpPkg) : Udp.fragmentsTo (Udp.sendPackage env
      { u with m_mapSender := u.m_mapSender.set addr (ss.number i pkg queue) } addr w).1 b =
        u.fragmentsTo b := by
    rw [Udp.fragmentsTo, taken_sendPackage]
    rfl
  refine ⟨hfrags _, ?_⟩
  by_cases hb : b = addr
  · subst hb
    rcases h.sender with ⟨hnone, -, -⟩ | ⟨ss', hss', hsends⟩
    · cases hnone.symm.trans hss
    · obtain rfl := Option.some.inj (hss'.symm.trans hss)
      have hnext : (u.fragmentsTo b).drop m = pkg :: queue := hsends.queue.symm.trans hqueue
      have hpkg : (u.fragmentsTo b)[m]? = some pkg := by
        rw [← List.head?_drop, hnext]
        rfl
      have hlt := (List.getElem?_eq_some_iff.mp hpkg).1
      have hseq : ss'.seq + 1 = BitVec.ofNat 32 (100001 + m) := by
        rw [hsends.seq, ofNat_succ]
        congr 1
        omega
      have hnum : Numbered (u.fragmentsTo b) m (pkg.stamp PACKAGE_DATA (ss'.seq + 1)) :=
        ⟨pkg, hpkg, by rw [hseq]; rfl⟩
      have hfree := packets_of_checkEmptyWindow hslot
      have hlow := lt_window hsends h.m_le hfree
      have hpackets := ss'.packets_number i pkg queue
      -- the new packet is the only one with the new number
      have hnew {k : Nat} {j : Slot} {p : UdpPkg} (hk : k < 2 ^ 32)
          (hp : (ss'.number i pkg queue).packets j = some p)
          (hpk : Numbered (u.fragmentsTo b) k p) :
          j = i ∧ k = m ∨ j ≠ i ∧ k < m ∧ ss'.packets j = some p := by
        rw [hpackets] at hp
        by_cases hj : j = i
        · subst hj
          rw [Function.update_self] at hp
          obtain rfl := Option.some.inj hp
          exact .inl ⟨rfl, hpk.inj hnum hk h.m_lt⟩
        · rw [Function.update_of_ne hj] at hp
          exact .inr ⟨hj, hsends.lt h.m_lt hp hk hpk, hp⟩
      have hset : Sending b (m + 1) high done
          { u with m_mapSender := u.m_mapSender.set b (ss'.number i pkg queue) } := by
        refine ⟨.inr ⟨_, SortedMap.get?_set_self _ _ _, ⟨?_, ?_, fun j p hp => ?_,
          fun k hlo hk => ?_, fun k hk j j' p q hp hq hpk hqk => ?_,
          fun k hk j p hp hpk => ?_⟩⟩, h.high_lt,
          h.high_le.trans (Nat.le_succ m), hlow, hlt, h.low, fun bytes hbytes => ?_⟩
        · refine hseq.trans ?_
          congr 1
          omega
        · have htail := congrArg List.tail hnext
          rw [List.tail_drop] at htail
          exact htail.symm
        · rw [hpackets] at hp
          by_cases hj : j = i
          · subst hj
            rw [Function.update_self] at hp
            obtain rfl := Option.some.inj hp
            exact ⟨m, Nat.lt_succ_self m, hnum⟩
          · rw [Function.update_of_ne hj] at hp
            obtain ⟨k, hk, hp⟩ := hsends.slots j p hp
            exact ⟨k, Nat.lt_succ_of_lt hk, hp⟩
        · rcases Nat.lt_succ_iff_lt_or_eq.mp hk with hk | rfl
          · obtain ⟨j, p, hp, hk⟩ := hsends.waiting k hlo hk
            have hj : j ≠ i := fun hj => by rw [← hj, hp] at hfree; cases hfree
            refine ⟨j, p, ?_, hk⟩
            rw [hpackets, Function.update_of_ne hj]
            exact hp
          · refine ⟨i, _, ?_, hnum⟩
            rw [hpackets, Function.update_self]
        · rcases hnew (Nat.lt_of_lt_of_le hk h.m_lt) hp hpk with ⟨hj, hkm⟩ | ⟨hj, hkm, hp⟩ <;>
            rcases hnew (Nat.lt_of_lt_of_le hk h.m_lt) hq hqk with ⟨hj', hkm'⟩ | ⟨hj', hkm', hq⟩
          · exact hj.trans hj'.symm
          · omega
          · omega
          · exact hsends.unique k hkm j j' p q hp hq hpk hqk
        · have hkm := h.lt_of_done k hk
          rcases hnew (hkm.trans h.m_lt) hp hpk with ⟨hj, hkm'⟩ | ⟨hj, hkm', hp⟩
          · omega
          · exact hsends.gone k hk j p hp hpk
        · obtain ⟨p, hp, heq⟩ := h.sent bytes hbytes
          exact ⟨p, hp.extend List.prefix_rfl (Nat.le_succ m), heq⟩
      exact ⟨m + 1, hset.sendPackage fun _ => .data (Nat.lt_succ_self m) hnum⟩
  · refine ⟨m, sendPackage ?_ fun haddr => absurd haddr.symm hb⟩
    exact h.congr rfl (SortedMap.get?_set_of_ne _ hb _) rfl

theorem sendStep (h : Sending b m high done u) {u' : Udp} (hconsistent : Consistent u)
    (hstep : SendStep env u u') :
    u.fragmentsTo b <+: u'.fragmentsTo b ∧ ∃ m', Sending b m' high done u' := by
  cases hstep with
  | create addr =>
    refine ⟨?_, m, h.getSender addr⟩
    have htaken : (u.getSender env addr).taken = u.taken := by
      unfold Udp.getSender
      split
      · rfl
      · exact taken_sendPackage env _ _
    rw [fragmentsTo, fragmentsTo, htaken]
  | take hqueue hss hempty =>
    obtain ⟨hmore, htake⟩ := h.take hss hempty
    exact ⟨hmore, m, htake⟩
  | number hnumber =>
    obtain ⟨hsame, hnext⟩ := h.number hconsistent hnumber
    exact ⟨hsame ▸ List.prefix_rfl, hnext⟩

/-- The packet numbered next is found in its slot by its number. -/
theorem window_number (h : Sending b m high done u) {ss : Sender}
    (hss : u.m_mapSender.get? b = some ss) (pkg : UdpPkg) (queue : List UdpPkg) (i : Slot) :
    getWindowBySeq (ss.number i pkg queue).packets (ss.seq + 1) = some i := by
  rcases h.sender with ⟨hnone, -, -⟩ | ⟨ss', hss', hsends⟩
  · cases hnone.symm.trans hss
  · obtain rfl := Option.some.inj (hss'.symm.trans hss)
    rw [getWindowBySeq_eq_some_iff, ss'.packets_number]
    refine ⟨⟨_, Function.update_self _ _ _, rfl⟩, fun j hj q hq hseq => ?_⟩
    rw [Function.update_of_ne (ne_of_lt hj)] at hq
    obtain ⟨k, hk, hnum⟩ := hsends.slots j q hq
    have hm := h.m_lt
    have hval := congrArg BitVec.toNat (hnum.seq.symm.trans (hseq.trans (congrArg (· + 1) hsends.seq)))
    rw [ofNat_succ, BitVec.toNat_ofNat, BitVec.toNat_ofNat] at hval
    omega

theorem raise (h : Sending b m high done u) {high' : Nat} (hle : high ≤ high') (hm : high' ≤ m)
    (hlt : high' + 100001 ≤ 2 ^ 32) : Sending b m high' done u := by
  refine ⟨h.sender.imp_right ?_, hlt, hm, h.m_le.trans (Nat.add_le_add_right hle _),
    h.m_le_length, fun k hk => Nat.lt_of_lt_of_le (h.low k hk) hle, h.sent⟩
  rintro ⟨ss, hss, hsends⟩
  exact ⟨ss, hss, hsends.seq, hsends.queue, hsends.slots, fun k hlo => hsends.waiting k (hle.trans hlo),
    hsends.unique, hsends.gone⟩

theorem less (h : Sending b m high done u) {done' : List Nat} (hdone : ∀ k ∈ done', k ∈ done) :
    Sending b m high done' u := by
  refine ⟨h.sender.imp_right ?_, h.high_lt, h.high_le, h.m_le, h.m_le_length,
    fun k hk => h.low k (hdone k hk), h.sent⟩
  rintro ⟨ss, hss, hsends⟩
  exact ⟨ss, hss, hsends.seq, hsends.queue, hsends.slots, hsends.waiting, hsends.unique,
    fun k hk => hsends.gone k (hdone k hk)⟩

theorem modifySender (h : Sending b m high done u) {addr : SockAddr} {ss : Sender} {f : Sender → Sender}
    (hss : u.m_mapSender.get? addr = some ss)
    (hf : addr = b → ss.Sends (u.fragmentsTo b) m high done →
      (f ss).Sends (u.fragmentsTo b) m high done) :
    Sending b m high done (u.modifySender addr f) := by
  rw [modifySender_eq_set u f hss]
  by_cases hb : b = addr
  · subst hb
    rcases h.sender with ⟨hnone, -, -⟩ | ⟨ss', hss', hsends⟩
    · cases hnone.symm.trans hss
    · obtain rfl := Option.some.inj (hss'.symm.trans hss)
      exact ⟨.inr ⟨_, SortedMap.get?_set_self _ _ _, hf rfl hsends⟩, h.high_lt, h.high_le, h.m_le,
        h.m_le_length, h.low, h.sent⟩
  · exact h.congr rfl (SortedMap.get?_set_of_ne _ hb _) rfl

theorem fire (h : Sending b m high done u) (hconsistent : Consistent u) {e : EventId}
    (he : e ∈ u.m_eventTimerList) : Sending b m high done (u.fire env e) := by
  have hdone {w : Udp} (hw : Sending b m high done w) (ret : Int) :
      Sending b m high done (finish (w.deleteTimeoutEvent e, ret)) := by
    unfold finish
    split
    · exact hw.congr rfl rfl rfl
    · exact hw.congr rfl rfl rfl
  have hfired := processTimeout_cases env hconsistent he
  unfold Udp.fire
  generalize u.processTimeout env e = r at hfired
  cases hfired with
  | stop => exact hdone h _
  | @report ss p hss hp hcurrent htries =>
    have hreport : Sending b m high done
        { u with raised := u.raised ++ [.timeout e.addr p.sessionid] } := h.congr rfl rfl rfl
    exact hdone hreport _
  | @retry ss p hss hp hcurrent =>
    refine hdone (sendPackage ?_ fun hb => ?_) _
    · exact h.modifySender hss fun _ hsends =>
        hsends.retimed (ss.updateEvent_retimed _ e hp.symm)
    · -- the packet is the SYN or lies in a slot
      have hfrags : (u.modifyEvent e fun ev =>
          { ev with tryCount := ev.tryCount + 1, udpPkg := some p }).fragmentsTo b =
            u.fragmentsTo b := by
        rw [Udp.fragmentsTo, modifyEvent, modifySender_taken]
        rfl
      rw [hfrags]
      subst hb
      have hok := hconsistent.senders _ ss hss
      cases e with
      | fin a => cases hok.fin.symm.trans hp
      | syn a => exact .syn (Option.some.inj (hok.syn.symm.trans hp)).symm
      | slot a i =>
        rcases h.sender with ⟨hnone, -, -⟩ | ⟨ss', hss', hsends⟩
        · cases hnone.symm.trans hss
        · obtain rfl := Option.some.inj (hss'.symm.trans hss)
          obtain ⟨k, hk, hnum⟩ := hsends.slots i p hp
          exact .data hk hnum

theorem freeSlot (h : Sending b m high done u) {addr : SockAddr} {ss : Sender} {i : Slot} {p : UdpPkg}
    (hss : u.m_mapSender.get? addr = some ss) (hp : ss.packets i = some p)
    (hacked : addr = b → ∀ k, high ≤ k → k < m → ¬ Numbered (u.fragmentsTo b) k p)
    {done' : List Nat} (hdone : ∀ k ∈ done', k ∈ done ∨
      addr = b ∧ k < high ∧ Numbered (u.fragmentsTo b) k p) :
    Sending b m high done' (u.freeSlot addr i) := by
  have hkept {j : Slot} {q : UdpPkg} (hq : (ss.clear addr i).packets j = some q) :
      j ≠ i ∧ ss.packets j = some q := by
    rw [ss.packets_clear addr i] at hq
    by_cases hj : j = i
    · subst hj
      rw [Function.update_self] at hq
      cases hq
    · rw [Function.update_of_ne hj] at hq
      exact ⟨hj, hq⟩
  have hlow : ∀ k ∈ done', k < high := fun k hk => (hdone k hk).elim (h.low k) fun hnew => hnew.2.1
  have hsends : addr = b → ss.Sends (u.fragmentsTo b) m high done →
      (ss.clear addr i).Sends (u.fragmentsTo b) m high done' := by
    intro hb hsends
    refine ⟨hsends.seq, hsends.queue, fun j q hq => hsends.slots j q (hkept hq).2,
      fun k hlo hk => ?_, fun k hk j j' q q' hq hq' =>
        hsends.unique k hk j j' q q' (hkept hq).2 (hkept hq').2, fun k hk j q hq hnum => ?_⟩
    · obtain ⟨j, q, hq, hnum⟩ := hsends.waiting k hlo hk
      have hj : j ≠ i := by
        rintro rfl
        obtain rfl := Option.some.inj (hp.symm.trans hq)
        exact hacked hb k hlo hk hnum
      refine ⟨j, q, ?_, hnum⟩
      rw [ss.packets_clear addr i, Function.update_of_ne hj]
      exact hq
    · obtain ⟨hj, hq⟩ := hkept hq
      rcases hdone k hk with hold | ⟨-, hlt, hnum'⟩
      · exact hsends.gone k hold j q hq hnum
      · exact hj (hsends.unique k (Nat.lt_of_lt_of_le hlt h.high_le) j i q p hq hp hnum hnum')
  have hdelete : Sending b m high done (u.deleteTimeoutEvent (.slot addr i)) := h.congr rfl rfl rfl
  have hss' : (u.deleteTimeoutEvent (.slot addr i)).m_mapSender.get? addr = some ss := hss
  unfold Udp.freeSlot
  rw [modifySender_eq_set _ _ hss']
  by_cases hb : b = addr
  · subst hb
    rcases h.sender with ⟨hnone, -, -⟩ | ⟨ss', hss', hold⟩
    · cases hnone.symm.trans hss
    · obtain rfl := Option.some.inj (hss'.symm.trans hss)
      exact ⟨.inr ⟨_, SortedMap.get?_set_self _ _ _, hsends rfl hold⟩, h.high_lt, h.high_le, h.m_le,
        h.m_le_length, hlow, h.sent⟩
  · have hdone' (k : Nat) (hk : k ∈ done') : k ∈ done :=
      (hdone k hk).elim id fun hnew => absurd hnew.1.symm hb
    have hset := hdelete.congr (v := { u.deleteTimeoutEvent (.slot addr i) with
      m_mapSender := u.m_mapSender.set addr (ss.clear addr i) }) rfl
      (SortedMap.get?_set_of_ne _ hb _) rfl
    exact hset.less hdone'

/-- What an ACK of the peer does that acknowledges none of the fragments from `high` on. -/
inductive AckDone (u : Udp) (b sender : SockAddr) (p : UdpPkg) (high : Nat) (done : List Nat) :
    List Nat → List (BitVec 64) → Prop where
  | same : AckDone u b sender p high done done (u.finishes b)
  | finish {k : Nat} {q : UdpPkg} (hb : sender = b) (hk : k < high) (hdone : k ∉ done)
      (hq : Numbered (u.fragmentsTo b) k q) (hseq : q.seq = p.seq) (hlast : p.totallen = p.offset) :
      AckDone u b sender p high done (done ++ [k]) (u.finishes b ++ [p.sessionid])

theorem receiveAck (h : Sending b m high done u) (hconsistent : Consistent u) {sender : SockAddr}
    {p : UdpPkg} (hacked : sender = b → ∀ k, high ≤ k → k < m →
      p.seq ≠ BitVec.ofNat 32 (100001 + k)) :
    (u.receiveAck sender p).fragmentsTo b = u.fragmentsTo b ∧
    ∃ done', AckDone u b sender p high done done' ((u.receiveAck sender p).finishes b) ∧
      Sending b m high done' (u.receiveAck sender p) := by
  have hnot {ss : Sender} {i : Slot} (hi : getWindowBySeq ss.packets p.seq = some i) :
      ∃ q, ss.packets i = some q ∧ q.seq = p.seq ∧ (sender = b → ∀ k, high ≤ k → k < m →
        ¬ Numbered (u.fragmentsTo b) k q) := by
    obtain ⟨⟨q, hq, hseq⟩, -⟩ := getWindowBySeq_eq_some_iff.mp hi
    exact ⟨q, hq, hseq, fun hb k hlo hk hnum => hacked hb k hlo hk (hseq.symm.trans hnum.seq)⟩
  have hcases := @receiveAck_cases u sender p hconsistent
  generalize u.receiveAck sender p = v at hcases
  cases hcases with
  | ignored => exact ⟨rfl, done, .same, h⟩
  | opened hss hstatus hseq =>
    have hdelete : Sending b m high done (u.deleteTimeoutEvent (.syn sender)) := h.congr rfl rfl rfl
    have hopen : Sending b m high done ((u.deleteTimeoutEvent (.syn sender)).modifySender sender
        fun ss => { ss with status := .OPEN }) := hdelete.modifySender hss fun _ hsends =>
      ⟨hsends.seq, hsends.queue, hsends.slots, hsends.waiting, hsends.unique, hsends.gone⟩
    rw [modifySender_eq] at hopen ⊢
    exact ⟨rfl, done, .same, hopen⟩
  | @freed ss i hss hstatus hi hmore =>
    obtain ⟨q, hq, -, hfree⟩ := hnot hi
    have hfreed := h.freeSlot hss hq hfree fun k hk => .inl hk
    unfold Udp.freeSlot at hfreed ⊢
    rw [modifySender_eq] at hfreed ⊢
    exact ⟨rfl, done, .same, hfreed⟩
  | @finished ss i hss hstatus hi hlast =>
    obtain ⟨q, hq, hseq, hfree⟩ := hnot hi
    by_cases hb : sender = b
    · subst hb
      rcases h.sender with ⟨hnone, -, -⟩ | ⟨ss', hss', hsends⟩
      · cases hnone.symm.trans hss
      · obtain rfl := Option.some.inj (hss'.symm.trans hss)
        obtain ⟨k, hk, hnum⟩ := hsends.slots i q hq
        have hlow : k < high := by
          by_contra hnot
          exact hfree rfl k (Nat.not_lt.mp hnot) hk hnum
        have hdone : k ∉ done := fun hk => hsends.gone k hk i q hq hnum
        have hfreed : Sending sender m high (done ++ [k]) (u.freeSlot sender i) := by
          refine h.freeSlot hss hq hfree fun j hj => ?_
          rcases List.mem_append.mp hj with hj | hj
          · exact .inl hj
          · obtain rfl := List.mem_singleton.mp hj
            exact .inr ⟨rfl, hlow, hnum⟩
        refine ⟨?_, done ++ [k], ?_, hfreed.congr rfl rfl rfl⟩
        · unfold Udp.freeSlot
          rw [modifySender_eq]
          rfl
        · have hfinishes : Udp.finishes { u.freeSlot sender i with
              raised := (u.freeSlot sender i).raised ++ [.sessionFinish sender p.sessionid] } sender =
                u.finishes sender ++ [p.sessionid] := by
            unfold Udp.freeSlot Udp.finishes
            rw [modifySender_eq]
            simp [deleteTimeoutEvent]
          rw [hfinishes]
          exact .finish rfl hlow hdone hnum hseq hlast
    · have hfreed := h.freeSlot hss hq hfree fun k hk => .inl hk
      refine ⟨?_, done, ?_, hfreed.congr rfl rfl rfl⟩
      · unfold Udp.freeSlot
        rw [modifySender_eq]
        rfl
      · have hfinishes : Udp.finishes { u.freeSlot sender i with
            raised := (u.freeSlot sender i).raised ++ [.sessionFinish sender p.sessionid] } b =
              u.finishes b := by
          unfold Udp.freeSlot Udp.finishes
          rw [modifySender_eq]
          simp [deleteTimeoutEvent, hb]
        rw [hfinishes]
        exact .same

theorem receiveSide (h : Sending b m high done u) {sender : SockAddr} {p : UdpPkg}
    (hside : ReceiveSide sender p u v) : Sending b m high done v := by
  refine h.frame hside.taken ?_ fun bytes hbytes => ?_
  · rw [hside.m_mapSender]
    cases u.m_mapSender.get? b with
    | none => exact .none
    | some ss => exact .some (.refl ss)
  · rcases hside.sent _ hbytes with hold | ⟨ack, hack, hnew⟩
    · exact .inl hold
    · exact .inr ⟨ack, .ack hack.type, (Prod.mk.inj hnew).2⟩

end Sending

/-! ### What the receiving half sees of sending -/

/-- Packets that are not ACKs are sent, and no session is reported as finished. -/
structure SendOnly (u v : Udp) : Prop where
  side : SendSide u v
  finishes : v.finishes = u.finishes
  kept : ∀ x ∈ u.sent, x ∈ v.sent
  posted : ∀ x ∈ v.sent, x ∈ u.sent ∨
    ∃ addr, ∃ p : UdpPkg, p.type ≠ PACKAGE_ACK ∧ x = (addr, p.bytes)

theorem ReceiveSide.finishes {u v : Udp} {sender : SockAddr} {p : UdpPkg}
    (h : ReceiveSide sender p u v) (b : SockAddr) : v.finishes b = u.finishes b := by
  obtain ⟨new, hraised, hdata⟩ := h.raised
  have hnone : Udp.finishes { v with raised := new } b = [] := by
    refine List.filterMap_eq_nil_iff.mpr fun x hx => ?_
    obtain ⟨data, rfl⟩ := hdata x hx
    rfl
  unfold Udp.finishes at hnone ⊢
  rw [hraised, List.filterMap_append, hnone, List.append_nil]

section SendOnly
variable {env : Env} {u v : Udp}

theorem SendOnly.congr (hside : SendSide u v) (hraised : v.raised = u.raised) (hsent : v.sent = u.sent) :
    SendOnly u v := by
  refine ⟨hside, ?_, fun x hx => hsent ▸ hx, fun x hx => .inl (hsent ▸ hx)⟩
  unfold Udp.finishes
  rw [hraised]

theorem SendOnly.trans {w : Udp} (h : SendOnly u v) (h' : SendOnly v w) : SendOnly u w := by
  refine ⟨h.side.trans h'.side, h'.finishes.trans h.finishes, fun x hx => h'.kept x (h.kept x hx),
    fun x hx => ?_⟩
  rcases h'.posted x hx with hx | hnew
  · exact h.posted x hx
  · exact .inr hnew

theorem sendPackage_sendOnly (u : Udp) (addr : SockAddr) {pkg : UdpPkg}
    (htype : pkg.type ≠ PACKAGE_ACK) : SendOnly u (u.sendPackage env addr pkg).1 := by
  refine ⟨sendPackage_sendSide env u addr pkg, ?_, fun x => sent_sendPackage env, fun x hx => ?_⟩
  · unfold Udp.finishes
    rw [raised_sendPackage]
  · exact (mem_sent_sendPackage env hx).imp_right fun hnew => ⟨addr, pkg, htype, hnew⟩

theorem SendStep.sendOnly (h : SendStep env u v) : SendOnly u v := by
  cases h with
  | create addr =>
    unfold getSender
    split
    · exact .congr (.refl u) rfl rfl
    · have hset : SendOnly u { u with m_mapSender := u.m_mapSender.set addr (newSender addr) } :=
        .congr ⟨rfl, rfl, rfl⟩ rfl rfl
      exact hset.trans (sendPackage_sendOnly _ _ (by rw [UdpPkg.stamp_type]; decide))
  | take hqueue hss hempty =>
    rw [modifySender_eq]
    exact .congr ⟨rfl, rfl, rfl⟩ rfl rfl
  | number hnumber =>
    obtain ⟨hss, hqueue, hslot⟩ := hnumber
    refine SendOnly.trans ?_ (sendPackage_sendOnly _ _ (by rw [UdpPkg.stamp_type]; decide))
    exact .congr ⟨rfl, rfl, rfl⟩ rfl rfl

theorem loopHead_sendOnly (env : Env) (u : Udp) : SendOnly u (u.loopHead env).1 := by
  have hstart : SendOnly u { u with ticks := u.ticks + 1 } := .congr ⟨rfl, rfl, rfl⟩ rfl rfl
  exact Runs.steps_invariant (fun h hstep => h.trans (SendStep.sendOnly hstep)) hstart
    (checkSendQueue_steps env _)

theorem finish_sendOnly (r : Udp × Int) : SendOnly r.1 (finish r) := by
  unfold finish
  split <;> exact .congr ⟨rfl, rfl, rfl⟩ rfl rfl

theorem fire_sendOnly (h : Consistent u) {e : EventId} (he : e ∈ u.m_eventTimerList) :
    SendOnly u (u.fire env e) := by
  have hdone {r : Udp × Int} (hr : SendOnly u r.1) :
      SendOnly u (finish (r.1.deleteTimeoutEvent e, r.2)) := by
    have hdelete : SendOnly r.1 (r.1.deleteTimeoutEvent e) := .congr ⟨rfl, rfl, rfl⟩ rfl rfl
    exact (hr.trans hdelete).trans (finish_sendOnly (_, r.2))
  have hfired := processTimeout_cases env h he
  unfold Udp.fire
  generalize u.processTimeout env e = r at hfired
  cases hfired with
  | stop => exact hdone (.congr (.refl u) rfl rfl)
  | @report ss p hss hp hcurrent htries =>
    refine hdone ⟨⟨rfl, ?_, rfl⟩, ?_, fun x hx => hx, fun x => .inl⟩
    · funext a
      simp [messages]
    · funext a
      simp [Udp.finishes]
  | @retry ss p hss hp hcurrent =>
    have htype := ((h.senders _ ss hss).packet hp).2.2
    refine hdone (SendOnly.trans ?_ (sendPackage_sendOnly _ _ htype))
    unfold modifyEvent
    rw [modifySender_eq]
    exact .congr ⟨rfl, rfl, rfl⟩ rfl rfl

theorem fire_taken (h : Consistent u) {e : EventId} (he : e ∈ u.m_eventTimerList) :
    (u.fire env e).taken = u.taken := by
  have hdone (r : Udp × Int) : (finish (r.1.deleteTimeoutEvent e, r.2)).taken = r.1.taken := by
    unfold finish
    split <;> rfl
  have hfired := processTimeout_cases env h he
  unfold Udp.fire
  dsimp only
  rw [hdone]
  generalize u.processTimeout env e = r at hfired
  cases hfired with
  | stop => rfl
  | report hss hp hcurrent htries => rfl
  | retry hss hp hcurrent => rw [taken_sendPackage, modifyEvent, modifySender_taken]

theorem receiveAck_sent (h : Consistent u) (sender : SockAddr) (p : UdpPkg) :
    (u.receiveAck sender p).sent = u.sent := by
  have hfree (i : Slot) : (u.freeSlot sender i).sent = u.sent := by
    unfold Udp.freeSlot
    rw [modifySender_eq]
    rfl
  have hcases := @receiveAck_cases u sender p h
  generalize u.receiveAck sender p = v at hcases
  cases hcases with
  | ignored => rfl
  | opened hss hstatus hseq =>
    rw [modifySender_eq]
    rfl
  | freed hss hstatus hi hmore => exact hfree _
  | finished hss hstatus hi hlast => exact hfree _

end SendOnly

theorem sending_new (b : SockAddr) : Sending b 0 0 [] Udp.new := by
  refine ⟨.inl ⟨rfl, rfl, rfl⟩, by decide, Nat.le_refl 0, Nat.zero_le _, Nat.zero_le _,
    fun k hk => ?_, fun bytes hbytes => ?_⟩
  · cases hk
  · cases hbytes

end Udp

end Hardcoder.UDP
