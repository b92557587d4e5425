import Hardcoder.UdpSending

/-! The receiving half of a connection: what was accepted in order since the receiver was
made, and what was acknowledged ever. -/

namespace Hardcoder.UDP
open Stream
set_option autoImplicit false

/-- The ACK answers the SYN or one of the first `high` fragments. -/
inductive Acknowledges (frags : List UdpPkg) (high : Nat) (p : UdpPkg) : Prop where
  | syn (hseq : p.seq = 100000) : Acknowledges frags high p
  | data {k : Nat} {q : UdpPkg} (hk : k < high) (hq : Numbered frags k q) (hack : p.Acks q) :
      Acknowledges frags high p

theorem Acknowledges.extend {frags more : List UdpPkg} {high high' : Nat} {p : UdpPkg}
    (h : Acknowledges frags high p) (hmore : frags <+: more) (hle : high ≤ high') :
    Acknowledges more high' p := by
  cases h with
  | syn hseq => exact .syn hseq
  | data hk hq hack => exact .data (Nat.lt_of_lt_of_le hk hle) (hq.extend hmore) hack

theorem Acknowledges.seq_ne {frags : List UdpPkg} {high k : Nat} {p : UdpPkg}
    (h : Acknowledges frags high p) (hhigh : high + 100001 ≤ 2 ^ 32) (hlo : high ≤ k)
    (hk : k < high + CONST_WINDOW) : p.seq ≠ BitVec.ofNat 32 (100001 + k) := by
  unfold CONST_WINDOW at hk
  intro heq
  cases h with
  | syn hseq =>
    have hval := congrArg BitVec.toNat (hseq.symm.trans heq)
    rw [BitVec.toNat_ofNat] at hval
    change 100000 = _ at hval
    omega
  | @data k' q hk' hq hack =>
    have hval := congrArg BitVec.toNat (hq.seq.symm.trans (hack.seq.symm.trans heq))
    rw [BitVec.toNat_ofNat, BitVec.toNat_ofNat] at hval
    omega

theorem Acknowledges.of_numbered {frags : List UdpPkg} {high k : Nat} {p q : UdpPkg}
    (h : Acknowledges frags high p) (hhigh : high + 100001 ≤ 2 ^ 32) (hk : k < high)
    (hq : Numbered frags k q) (hseq : q.seq = p.seq) : p.Acks q := by
  cases h with
  | syn hsyn =>
    have hval := congrArg BitVec.toNat (hq.seq.symm.trans (hseq.trans hsyn))
    rw [BitVec.toNat_ofNat] at hval
    change _ = 100000 at hval
    omega
  | @data k' q' hk' hq' hack =>
    have hval := congrArg BitVec.toNat (hq.seq.symm.trans (hseq.trans (hack.seq.trans hq'.seq)))
    rw [BitVec.toNat_ofNat, BitVec.toNat_ofNat] at hval
    obtain rfl : k = k' := by omega
    obtain ⟨f, hf, rfl⟩ := hq
    obtain ⟨f', hf', rfl⟩ := hq'
    obtain rfl := Option.some.inj (hf.symm.trans hf')
    exact hack

/-- The receiver has put the first `r` fragments together. -/
structure Receiver.Expects (rs : Receiver) (frags : List UdpPkg) (r : Nat) : Prop where
  status : rs.status = .OPENING ∧ r = 0 ∨ rs.status = .OPEN
  expectedSeq : rs.expectedSeq = BitVec.ofNat 32 (100001 + r)
  sessions : rs.sessionMap = (reassemble (frags.take r)).1

/-- A number in the window is that of an earlier fragment or of the next one. -/
theorem number_in_window {r k high : Nat} (hr : r ≤ high) (hhigh : high + 100001 ≤ 2 ^ 32)
    (hk : k < high + CONST_WINDOW)
    (hlow : ¬ BitVec.ofNat 32 (100001 + k) <
      BitVec.ofNat 32 (100001 + r) - BitVec.ofNat 32 CONST_WINDOW)
    (hup : ¬ BitVec.ofNat 32 (100001 + r) < BitVec.ofNat 32 (100001 + k)) :
    r + 100001 < 2 ^ 32 ∧ k ≤ r := by
  unfold CONST_WINDOW at hk hlow
  rw [BitVec.lt_def, BitVec.toNat_sub, BitVec.toNat_ofNat, BitVec.toNat_ofNat,
    BitVec.toNat_ofNat] at hlow
  rw [BitVec.lt_def, BitVec.toNat_ofNat, BitVec.toNat_ofNat] at hup
  omega

theorem ofNat_inj_of_lt {k r : Nat} (hk : k ≤ r) (hr : r + 100001 < 2 ^ 32)
    (heq : BitVec.ofNat 32 (100001 + k) = BitVec.ofNat 32 (100001 + r)) : k = r := by
  have hval := congrArg BitVec.toNat heq
  rw [BitVec.toNat_ofNat, BitVec.toNat_ofNat] at hval
  omega

theorem reassemble_take_succ {frags : List UdpPkg} {r : Nat} {f : UdpPkg}
    (hf : frags[r]? = some f) :
    reassemble (frags.take (r + 1)) = accept (reassemble (frags.take r)) f := by
  rw [reassemble, List.take_add_one, hf, List.foldl_append]
  rfl

theorem accept_eq (sessions : SortedMap Int Session) (ms : List Message) (p : UdpPkg) :
    accept (sessions, ms) p = ((accept (sessions, []) p).1, ms ++ (accept (sessions, []) p).2) := rfl

namespace Udp

structure Receiving (a : SockAddr) (frags : List UdpPkg) (r high : Nat) (clean : Prop)
    (u : Udp) : Prop where
  r_le : r ≤ high
  high_lt : high + 100001 ≤ 2 ^ 32
  high_le : high ≤ frags.length
  receiver : (u.m_mapReceiver.get? a = none ∧ r = 0) ∨
    ∃ rs, u.m_mapReceiver.get? a = some rs ∧ rs.Expects frags r
  delivered : ∀ x ∈ (reassemble (frags.take high)).2, x ∈ u.messages a
  exact : clean → r = high ∧ u.messages a = (reassemble (frags.take high)).2
  sent : ∀ bytes, (a, bytes) ∈ u.sent →
    ∃ p, bytes = p.bytes ∧ (p.type = PACKAGE_ACK → Acknowledges frags high p)

namespace Receiving
variable {env : Env} {u v : Udp} {a : SockAddr} {frags : List UdpPkg} {r high : Nat} {clean : Prop}

theorem frame (h : Receiving a frags r high clean u)
    (hreceiver : v.m_mapReceiver.get? a = u.m_mapReceiver.get? a)
    (hmessages : v.messages a = u.messages a)
    (hsent : ∀ bytes, (a, bytes) ∈ v.sent → (a, bytes) ∈ u.sent ∨
      ∃ p, bytes = p.bytes ∧ (p.type = PACKAGE_ACK → Acknowledges frags high p)) :
    Receiving a frags r high clean v := by
  refine ⟨h.r_le, h.high_lt, h.high_le, ?_, ?_, ?_, fun bytes hbytes => ?_⟩
  · rw [hreceiver]
    exact h.receiver
  · rw [hmessages]
    exact h.delivered
  · rw [hmessages]
    exact h.exact
  · exact (hsent bytes hbytes).elim (h.sent bytes) id

theorem extend (h : Receiving a frags r high clean u) {more : List UdpPkg}
    (hmore : frags <+: more) : Receiving a more r high clean u := by
  obtain ⟨rest, hrest⟩ := hmore
  have htake {n : Nat} (hn : n ≤ high) : more.take n = frags.take n := by
    rw [← hrest, List.take_append_of_le_length (hn.trans h.high_le)]
  refine ⟨h.r_le, h.high_lt, ?_, ?_, ?_, ?_, fun bytes hbytes => ?_⟩
  · rw [← hrest, List.length_append]
    exact h.high_le.trans (Nat.le_add_right _ _)
  · rcases h.receiver with hnone | ⟨rs, hrs, hexpects⟩
    · exact .inl hnone
    · refine .inr ⟨rs, hrs, hexpects.status, hexpects.expectedSeq, ?_⟩
      rw [htake h.r_le]
      exact hexpects.sessions
  · rw [htake (Nat.le_refl high)]
    exact h.delivered
  · rw [htake (Nat.le_refl high)]
    exact h.exact
  · obtain ⟨p, hp, hack⟩ := h.sent bytes hbytes
    exact ⟨p, hp, fun htype => (hack htype).extend ⟨rest, hrest⟩ (Nat.le_refl high)⟩

theorem sendAck (h : Receiving a frags r high clean u) {q : UdpPkg}
    (hack : Acknowledges frags high (q.stamp PACKAGE_ACK q.seq)) :
    Receiving a frags r high clean (u.sendAck env a q).1 := by
  rw [sendAck_eq]
  refine h.frame rfl rfl fun bytes hbytes => ?_
  rcases mem_sent_transmit env hbytes with hold | hnew
  · exact .inl hold
  · exact .inr ⟨_, (Prod.mk.inj hnew).2, fun _ => hack⟩

theorem receiveSyn (h : Receiving a frags r high clean u) {p : UdpPkg} (hseq : p.seq = 100000)
    (hclean : clean → ∀ rs, u.m_mapReceiver.get? a = some rs → rs.status = .OPENING) :
    Receiving a frags 0 high clean (u.receiveSyn env a p).1 := by
  have hack : Acknowledges frags high (UdpPkg.stamp { p with datalen := 0 } PACKAGE_ACK p.seq) :=
    .syn hseq
  have hstart {w : Udp} {rs : Receiver} (hmessages : w.messages a = u.messages a)
      (hsent : w.sent = u.sent) (hsessions : rs.sessionMap = .empty)
      (hexact : clean → high = 0) :
      Receiving a frags 0 high clean
        (w.setReceiver a { rs with status := .OPENING, expectedSeq := p.seq + 1 }) := by
    refine ⟨Nat.zero_le _, h.high_lt, h.high_le, .inr ⟨_, SortedMap.get?_set_self _ _ _, ?_⟩, ?_,
      fun hc => ⟨(hexact hc).symm, ?_⟩, hsent ▸ h.sent⟩
    · exact ⟨.inl ⟨rfl, rfl⟩, by rw [hseq]; rfl, hsessions⟩
    · exact fun x hx => hmessages ▸ h.delivered x hx
    · exact hmessages.trans (h.exact hc).2
  have hrestart (hr : r = 0) (hc : clean) : high = 0 := (h.exact hc).1 ▸ hr
  unfold Udp.receiveSyn
  rcases h.receiver with ⟨hnone, hr⟩ | ⟨rs, hrs, hexpects⟩
  · rw [hnone]
    exact (@hstart u (newReceiver a) rfl rfl rfl (hrestart hr)).sendAck hack
  · rw [hrs]
    by_cases hstatus : rs.status ≠ .OPENING
    · simp only [if_pos hstatus]
      have hexact (hc : clean) : high = 0 := absurd (hclean hc rs hrs) hstatus
      exact (@hstart (u.cleanReceiver rs) (newReceiver a) rfl rfl rfl hexact).sendAck hack
    · simp only [if_neg hstatus]
      have hr : r = 0 := by
        rcases hexpects.status with hopening | hopen
        · exact hopening.2
        · exact absurd (by rw [hopen]; decide) hstatus
      refine sendAck (hstart rfl rfl ?_ (hrestart hr)) hack
      have hsessions := hexpects.sessions
      rw [hr] at hsessions
      exact hsessions

theorem accepted (h : Receiving a frags r high clean u) {rs : Receiver}
    (hfrom : rs.fromaddr = a) (hexpects : rs.Expects frags r) {f : UdpPkg} (hf : frags[r]? = some f)
    (hlt : r + 100001 < 2 ^ 32) {out : Reassembled} {recvRet : Nat}
    (hout : out = dataRecv (dataPkg f r) recvRet
      { rs with status := .OPEN, expectedSeq := (dataPkg f r).seq + 1 }) (accesses : List Access) :
    ∃ high', (high' = high ∨ high' = r + 1) ∧ high ≤ high' ∧
      Receiving a frags (r + 1) high' clean { u.setReceiver a out.rs with
        raised := u.raised ++ (out.message.map fun m =>
          Raised.data out.rs.fromaddr (dataPkg f r).sessionid m).toList
        accesses := accesses } := by
  obtain ⟨hrs', hmessage⟩ := dataRecv_accept (dataPkg f r) recvRet
    { rs with status := .OPEN, expectedSeq := (dataPkg f r).seq + 1 } (u.messages a)
  rw [← hout] at hrs' hmessage
  have hlength := (List.getElem?_eq_some_iff.mp hf).1
  have hnext := reassemble_take_succ hf
  rw [← accept_stamp _ f PACKAGE_DATA (BitVec.ofNat 32 (100001 + r))] at hnext
  change _ = accept _ (dataPkg f r) at hnext
  have hsessions : out.rs.sessionMap = (reassemble (frags.take (r + 1))).1 := by
    rw [hrs', hnext, ← Prod.mk.eta (p := reassemble (frags.take r)), accept_eq,
      accept_eq (reassemble (frags.take r)).1, ← hexpects.sessions]
  have hmessages : Udp.messages { u.setReceiver a out.rs with
      raised := u.raised ++ (out.message.map fun m =>
        Raised.data out.rs.fromaddr (dataPkg f r).sessionid m).toList
      accesses := accesses } a =
        u.messages a ++ (accept ((reassemble (frags.take r)).1, []) (dataPkg f r)).2 := by
    have hfrom' : out.rs.fromaddr = a := by
      rw [hrs']
      exact hfrom
    rw [← hexpects.sessions]
    have hnew := hmessage
    rw [accept_eq] at hnew
    rw [List.append_cancel_left hnew, hfrom']
    unfold Udp.messages
    cases out.message with
    | none => simp
    | some m => simp
  have hall : (reassemble (frags.take (r + 1))).2 = (reassemble (frags.take r)).2 ++
      (accept ((reassemble (frags.take r)).1, []) (dataPkg f r)).2 := by
    rw [hnext, ← Prod.mk.eta (p := reassemble (frags.take r)), accept_eq]
  have hrset : ∃ rs', SortedMap.get? (u.m_mapReceiver.set a out.rs) a = some rs' ∧
      rs'.Expects frags (r + 1) := by
    refine ⟨out.rs, SortedMap.get?_set_self _ _ _, .inr ?_, ?_, hsessions⟩
    · rw [hrs']
    · rw [hrs']
      exact ofNat_succ (100001 + r)
  by_cases hhigh : r = high
  · subst hhigh
    refine ⟨r + 1, .inr rfl, Nat.le_succ r, Nat.le_refl _, by omega, hlength, .inr hrset,
      fun x hx => ?_, fun hc => ⟨rfl, ?_⟩, fun bytes hbytes => ?_⟩
    · rw [hall] at hx
      rw [hmessages]
      rcases List.mem_append.mp hx with hx | hx
      · exact List.mem_append_left _ (h.delivered x hx)
      · exact List.mem_append_right _ hx
    · rw [hmessages, hall, (h.exact hc).2]
    · obtain ⟨p, hp, hack⟩ := h.sent bytes hbytes
      exact ⟨p, hp, fun htype => (hack htype).extend List.prefix_rfl (Nat.le_succ r)⟩
  · have hle := h.r_le
    refine ⟨high, .inl rfl, Nat.le_refl _, by omega, h.high_lt, h.high_le, .inr hrset,
      fun x hx => ?_, fun hc => absurd (h.exact hc).1 hhigh, h.sent⟩
    rw [hmessages]
    exact List.mem_append_left _ (h.delivered x hx)

/-- A fragment is received that was sent when fewer than a window were not accepted. -/
theorem receiveData (h : Receiving a frags r high clean u) (hconsistent : Consistent u)
    {f : UdpPkg} {k : Nat} (hf : frags[k]? = some f) (hk : k < high + CONST_WINDOW)
    (recvRet : Nat) : ∃ r' high', (high' = high ∨ high' = k + 1) ∧ high ≤ high' ∧
      Receiving a frags r' high' clean (u.receiveData env a recvRet (dataPkg f k)).1 := by
  have hsame : ∃ r' high', (high' = high ∨ high' = k + 1) ∧ high ≤ high' ∧
      Receiving a frags r' high' clean u := ⟨r, high, .inl rfl, Nat.le_refl _, h⟩
  unfold Udp.receiveData
  rcases h.receiver with ⟨hnone, -⟩ | ⟨rs, hrs, hexpects⟩
  · rw [hnone]
    exact hsame
  · rw [hrs]
    dsimp only
    split
    · exact hsame
    · split
      · exact hsame
      · rename_i hwindow
        rw [not_or, hexpects.expectedSeq] at hwindow
        obtain ⟨hlt, hle⟩ := number_in_window h.r_le h.high_lt hk hwindow.1 hwindow.2
        have hacks : (UdpPkg.stamp { dataPkg f k with
            offset := (dataPkg f k).offset + (dataPkg f k).datalen.setWidth 32
            datalen := 0 } PACKAGE_ACK (dataPkg f k).seq).Acks (dataPkg f k) :=
          ⟨rfl, rfl, rfl, rfl, rfl⟩
        have hack {n : Nat} (hn : k < n) : Acknowledges frags n (UdpPkg.stamp { dataPkg f k with
            offset := (dataPkg f k).offset + (dataPkg f k).datalen.setWidth 32
            datalen := 0 } PACKAGE_ACK (dataPkg f k).seq) := .data hn ⟨f, hf, rfl⟩ hacks
        split
        · rename_i hseq
          rw [hexpects.expectedSeq] at hseq
          obtain rfl := ofNat_inj_of_lt hle hlt hseq
          obtain ⟨high', hhigh', hmore, haccepted⟩ :=
            h.accepted (hconsistent.receivers a rs hrs) hexpects hf hlt rfl _
          exact ⟨k + 1, high', hhigh', hmore, haccepted.sendAck (hack haccepted.r_le)⟩
        · rename_i hseq
          have hkr : k < r := by
            refine lt_of_le_of_ne hle ?_
            rintro rfl
            exact hseq hexpects.expectedSeq.symm
          exact ⟨r, high, .inl rfl, Nat.le_refl _,
            h.sendAck (hack (Nat.lt_of_lt_of_le hkr h.r_le))⟩

theorem sendOnly (h : Receiving a frags r high clean u) (hv : SendOnly u v) :
    Receiving a frags r high clean v := by
  refine h.frame (by rw [hv.side.m_mapReceiver]) (by rw [hv.side.messages]) fun bytes hbytes => ?_
  rcases hv.posted _ hbytes with hold | ⟨addr, p, htype, hnew⟩
  · exact .inl hold
  · exact .inr ⟨p, (Prod.mk.inj hnew).2, fun hack => absurd hack htype⟩

theorem receiveAck (h : Receiving a frags r high clean u) (hconsistent : Consistent u)
    (sender : SockAddr) (p : UdpPkg) : Receiving a frags r high clean (u.receiveAck sender p) := by
  have hside := receiveAck_sendSide u sender p
  refine h.frame (by rw [hside.m_mapReceiver]) (by rw [hside.messages]) fun bytes hbytes => .inl ?_
  rwa [receiveAck_sent hconsistent] at hbytes

theorem other (h : Receiving a frags r high clean u) {sender : SockAddr} {p : UdpPkg}
    (hside : ReceiveSide sender p u v) (hsender : sender ≠ a) :
    Receiving a frags r high clean v := by
  refine h.frame (hside.receivers a hsender.symm) ?_ fun bytes hbytes => ?_
  · obtain ⟨new, hraised, hdata⟩ := hside.raised
    have hnone : Udp.messages { v with raised := new } a = [] := by
      refine List.filterMap_eq_nil_iff.mpr fun x hx => ?_
      obtain ⟨data, rfl⟩ := hdata x hx
      exact if_neg hsender
    unfold Udp.messages at hnone ⊢
    rw [hraised, List.filterMap_append, hnone, List.append_nil]
  · rcases hside.sent _ hbytes with hold | ⟨ack, -, hnew⟩
    · exact .inl hold
    · exact absurd (Prod.mk.inj hnew).1.symm hsender

end Receiving

end Udp

end Hardcoder.UDP
