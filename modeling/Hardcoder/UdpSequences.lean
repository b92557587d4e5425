import Hardcoder.UdpNumbers
import Hardcoder.UdpInputBounds

/-! The numbers of packets near the ends of their range: the check of the receiver's
window after a SYN of any number, and that of the sender's window for any numbers. -/

namespace Hardcoder.UDP
open Stream Runs
set_option autoImplicit false

/-- `(seq < (rs->expectedSeq - CONST_WINDOW)) || (seq > rs->expectedSeq)` -/
def Receiver.OutOfWindow (rs : Receiver) (seq : BitVec 32) : Prop :=
  seq < rs.expectedSeq - BitVec.ofNat 32 CONST_WINDOW ∨ rs.expectedSeq < seq

instance (rs : Receiver) (seq : BitVec 32) : Decidable (rs.OutOfWindow seq) :=
  inferInstanceAs (Decidable (_ ∨ _))

/-- The datagram passes the length and checksum test. -/
def Intact (d : Delivery UInt8) : Prop :=
  (Udp.received d).bytes.length ≠ 0 ∧
    (UdpPkg.decode (Udp.received d)).crc = (UdpPkg.decode (Udp.received d)).datacrc

structure Carries (d : Delivery UInt8) (type : BitVec 8) (seq : BitVec 32) : Prop where
  intact : Intact d
  type : (UdpPkg.decode (Udp.received d)).type = type
  seq : (UdpPkg.decode (Udp.received d)).seq = seq

instance (d : Delivery UInt8) (type : BitVec 8) (seq : BitVec 32) : Decidable (Carries d type seq) :=
  decidable_of_iff (((Udp.received d).bytes.length ≠ 0 ∧
      (UdpPkg.decode (Udp.received d)).crc = (UdpPkg.decode (Udp.received d)).datacrc) ∧
      (UdpPkg.decode (Udp.received d)).type = type ∧ (UdpPkg.decode (Udp.received d)).seq = seq)
    ⟨fun h => ⟨h.1, h.2.1, h.2.2⟩, fun h => ⟨h.intact, h.type, h.seq⟩⟩

/-- The datagram is neither a SYN nor a FIN nor the data packet with the number `next`. -/
structure Passive (d : Delivery UInt8) (next : BitVec 32) : Prop where
  syn : ∀ seq, ¬ Carries d PACKAGE_SYN seq
  fin : ∀ seq, ¬ Carries d PACKAGE_FIN seq
  data : ¬ Carries d PACKAGE_DATA next

namespace Udp

/-- `receiveData` gets past its two checks. -/
def accepts (u : Udp) (sender : SockAddr) (seq : BitVec 32) : Bool :=
  (u.m_mapReceiver.get? sender).any fun rs =>
    (rs.status = .OPENING ∨ rs.status = .OPEN) ∧ ¬ rs.OutOfWindow seq

section Receiver
variable (env : Env) {u : Udp} {a b : SockAddr} {d : Delivery UInt8} {p : UdpPkg} {recvRet : Nat}

theorem get?_sendAck (u : Udp) (sender : SockAddr) (p : UdpPkg) :
    (u.sendAck env sender p).1.m_mapReceiver = u.m_mapReceiver :=
  (sendPackage_sendSide env u sender (p.stamp PACKAGE_ACK p.seq)).m_mapReceiver

/-- An accepted packet that is not the expected one is only answered. -/
theorem receiveData_other {rs : Receiver} (hrs : u.m_mapReceiver.get? a = some rs)
    (hseq : p.seq ≠ rs.expectedSeq) :
    (u.receiveData env a recvRet p).1.m_mapReceiver = u.m_mapReceiver := by
  unfold receiveData
  rw [hrs]
  dsimp only
  rw [if_neg hseq]
  split
  · rfl
  split
  · rfl
  · exact get?_sendAck env u a _

theorem receiveData_next (u : Udp) (recvRet : Nat) {rs : Receiver} (hrs : u.m_mapReceiver.get? a = some rs)
    (haccepts : u.accepts a p.seq = true) (hseq : p.seq = rs.expectedSeq) :
    ∃ rs', (u.receiveData env a recvRet p).1.m_mapReceiver.get? a = some rs' ∧
      rs'.status = .OPEN ∧ rs'.expectedSeq = p.seq + 1 := by
  simp only [accepts, hrs, Option.any_some, decide_eq_true_eq] at haccepts
  obtain ⟨hstatus, hin⟩ := haccepts
  have hnot : ¬ (rs.status ≠ .OPENING ∧ rs.status ≠ .OPEN) := by
    rintro ⟨hopening, hopen⟩
    rcases hstatus with h | h
    · exact hopening h
    · exact hopen h
  have hwindow : ¬ (p.seq < rs.expectedSeq - BitVec.ofNat 32 CONST_WINDOW ∨ rs.expectedSeq < p.seq) :=
    hin
  refine ⟨(dataRecv p recvRet { rs with status := .OPEN, expectedSeq := p.seq + 1 }).rs, ?_, ?_, ?_⟩
  · unfold receiveData
    rw [hrs]
    dsimp only
    rw [if_neg hnot, if_neg hwindow, if_pos hseq, get?_sendAck]
    exact SortedMap.get?_set_self _ _ _
  · unfold dataRecv
    split
    · rfl
    · dsimp only
      split <;> rfl
  · unfold dataRecv
    split
    · rfl
    · dsimp only
      split <;> rfl

theorem receiveSyn_expects : ∃ rs,
    (u.receiveSyn env a p).1.m_mapReceiver.get? a = some rs ∧ rs.status = .OPENING ∧
      rs.expectedSeq = p.seq + 1 := by
  have hset (v : Udp) (rs : Receiver) : ∃ rs',
      ((v.setReceiver a { rs with status := .OPENING, expectedSeq := p.seq + 1 }).sendAck env a
        { p with datalen := 0 }).1.m_mapReceiver.get? a = some rs' ∧ rs'.status = .OPENING ∧
        rs'.expectedSeq = p.seq + 1 := by
    refine ⟨{ rs with status := .OPENING, expectedSeq := p.seq + 1 }, ?_, rfl, rfl⟩
    rw [get?_sendAck]
    exact SortedMap.get?_set_self _ _ _
  unfold receiveSyn
  exact hset _ _

end Receiver

/-! ### A SYN and the data packets after it -/

section Arrived
variable {env : Env} {a : SockAddr} {n : BitVec 32} {log : List Bool} {u u' : Udp} {d : Delivery UInt8}

/-- After a SYN with the number `n` from `a`, the data packets `n + 1`, `n + 2`, .. have
arrived, one for each entry of the list, which says whether it was accepted. Between
them the loop and the other peers go on, and `a` may send anything but a SYN, a FIN and
the next packet. -/
inductive Arrived (env : Env) (a : SockAddr) (n : BitVec 32) : List Bool → Udp → Prop where
  | syn {acts : List Action} {u u' : Udp} {d : Delivery UInt8} (hrun : run (step env) Udp.new acts = some u)
      (hstep : u.step env (.receive a d) = some u') (hd : Carries d PACKAGE_SYN n) : Arrived env a n [] u'
  | other {log : List Bool} {u u' : Udp} {act : Action} (h : Arrived env a n log u)
      (hstep : u.step env act = some u')
      (hact : ∀ d, act = .receive a d → Passive d (n + BitVec.ofNat 32 log.length + 1)) :
      Arrived env a n log u'
  | data {log : List Bool} {u u' : Udp} {d : Delivery UInt8} (h : Arrived env a n log u)
      (hstep : u.step env (.receive a d) = some u')
      (hd : Carries d PACKAGE_DATA (n + BitVec.ofNat 32 log.length + 1)) :
      Arrived env a n
        (log ++ [(u.loopHead env).1.accepts a (n + BitVec.ofNat 32 log.length + 1)]) u'

/-- The receiver of `a` takes data and waits for the packet `seq`. -/
def Expects (u : Udp) (a : SockAddr) (seq : BitVec 32) : Prop :=
  ∃ rs, u.m_mapReceiver.get? a = some rs ∧ (rs.status = .OPENING ∨ rs.status = .OPEN) ∧
    rs.expectedSeq = seq

theorem Expects.congr {seq : BitVec 32} (h : u.Expects a seq)
    (hsame : u'.m_mapReceiver.get? a = u.m_mapReceiver.get? a) : u'.Expects a seq := by
  obtain ⟨rs, hrs, hstatus, hseq⟩ := h
  exact ⟨rs, hsame.trans hrs, hstatus, hseq⟩

theorem Expects.accepts {seq : BitVec 32} (h : u.Expects a seq) :
    u.accepts a seq = true ↔ CONST_WINDOW ≤ seq.toNat := by
  obtain ⟨rs, hrs, hstatus, rfl⟩ := h
  have hseq := rs.expectedSeq.isLt
  have h5 : CONST_WINDOW = 5 := rfl
  have hwindow : (5#32).toNat = 5 := rfl
  simp only [Udp.accepts, hrs, Option.any_some, decide_eq_true_eq, Receiver.OutOfWindow,
    BitVec.lt_def, BitVec.toNat_sub, h5]
  constructor
  · rintro ⟨-, hin⟩
    omega
  · intro hle
    refine ⟨hstatus, ?_⟩
    omega

theorem step_receive (h : u.step env (.receive a d) = some u') :
    (u.loopHead env).1.m_mapReceiver = u.m_mapReceiver ∧
      u'.m_mapReceiver = ((u.loopHead env).1.processReceive env a d).1.m_mapReceiver := by
  cases step_cases h with
  | receive _ _ hrunning hdue =>
    exact ⟨(loopHead_sendSide env u).m_mapReceiver, (finish_sendSide _).m_mapReceiver⟩

theorem processReceive_carries (env : Env) (u : Udp) (a : SockAddr) {type : BitVec 8} {seq : BitVec 32} (hd : Carries d type seq) :
    ∃ accesses, u.processReceive env a d =
      if type = PACKAGE_SYN then
        { u with accesses := accesses }.receiveSyn env a (UdpPkg.decode (received d))
      else if type = PACKAGE_DATA then
        { u with accesses := accesses }.receiveData env a (received d).bytes.length
          (UdpPkg.decode (received d))
      else if type = PACKAGE_FIN then
        { u with accesses := accesses }.receiveFin env a (UdpPkg.decode (received d))
      else if type = PACKAGE_ACK then
        ({ u with accesses := accesses }.receiveAck a (UdpPkg.decode (received d)), 0)
      else ({ u with accesses := accesses }, 0) := by
  obtain ⟨⟨hlen, hcrc⟩, rfl, -⟩ := hd
  refine ⟨u.accesses ++ [.crc (UdpPkg.decode (received d)).pkgLen (received d).bytes.length], ?_⟩
  unfold processReceive
  dsimp only
  have hlen' : ¬ (d.bytes.take UdpPkg.size).length = 0 := hlen
  have hcrc' : ¬ (UdpPkg.decode (received d)).crc ≠ (UdpPkg.decode (received d)).datacrc :=
    not_not.mpr hcrc
  rw [if_neg hlen']
  exact if_neg hcrc'

theorem processReceive_not_intact (hd : ¬ Intact d) :
    (u.processReceive env a d).1.m_mapReceiver = u.m_mapReceiver := by
  unfold processReceive
  dsimp only
  by_cases hlen : (d.bytes.take UdpPkg.size).length = 0
  · rw [if_pos hlen]
  · rw [if_neg hlen]
    have hcrc : (UdpPkg.decode (received d)).crc ≠ (UdpPkg.decode (received d)).datacrc :=
      fun hcrc => hd ⟨hlen, hcrc⟩
    exact congrArg (fun r : Udp × Int => r.1.m_mapReceiver) (if_pos hcrc)

/-- What is not a SYN, a FIN or the expected data packet leaves the receiver as it is. -/
theorem processReceive_passive {seq : BitVec 32} (h : u.Expects a seq) (hd : Passive d seq) :
    (u.processReceive env a d).1.m_mapReceiver = u.m_mapReceiver := by
  by_cases hintact : Intact d
  · have hcarries : Carries d _ _ := ⟨hintact, rfl, rfl⟩
    obtain ⟨accesses, heq⟩ := processReceive_carries env u a hcarries
    rw [heq]
    split
    · rename_i htype
      exact absurd ⟨hintact, htype, rfl⟩ (hd.syn (UdpPkg.decode (received d)).seq)
    split
    · rename_i htype
      obtain ⟨rs, hrs, -, rfl⟩ := h
      exact receiveData_other env hrs fun hseq => hd.data ⟨hintact, htype, hseq⟩
    split
    · rename_i htype
      exact absurd ⟨hintact, htype, rfl⟩ (hd.fin (UdpPkg.decode (received d)).seq)
    split
    · exact (receiveAck_sendSide _ a _).m_mapReceiver
    · rfl
  · exact processReceive_not_intact hintact

theorem processReceive_of_ne (h : Consistent u) {b : SockAddr} (hne : a ≠ b) :
    (u.processReceive env b d).1.m_mapReceiver.get? a = u.m_mapReceiver.get? a := by
  obtain ⟨accesses, hhandled⟩ := processReceive_cases env u b d
  have hu : Consistent { u with accesses := accesses } := h.congr rfl rfl rfl
  generalize u.processReceive env b d = r at hhandled
  cases hhandled with
  | ignored => rfl
  | syn htype => exact (receiveSyn_side env hu htype).receivers a hne
  | data htype => exact (receiveData_side env hu htype _).receivers a hne
  | fin htype => exact (receiveFin_side env hu htype).receivers a hne
  | ack htype => exact congrArg (fun m => m.get? a) (receiveAck_sendSide _ b _).m_mapReceiver

theorem step_expects {seq : BitVec 32} {act : Action} (hu : Consistent u) (h : u.Expects a seq)
    (hstep : u.step env act = some u') (hact : ∀ d, act = .receive a d → Passive d seq) :
    u'.Expects a seq := by
  have hhead : (u.loopHead env).1.Expects a seq :=
    h.congr (by rw [(loopHead_sendSide env u).m_mapReceiver])
  cases step_cases hstep with
  | send pack hroom => exact h
  | idle hrunning hdue => exact hhead
  | fire e hrunning hdue => exact hhead.congr (by rw [(fire_sendSide env _ e).m_mapReceiver])
  | receive b d hrunning hdue =>
    have hdone : ((u.loopHead env).1.processReceive env b d).1.Expects a seq := by
      by_cases hb : b = a
      · subst hb
        exact hhead.congr (by rw [processReceive_passive hhead (hact d rfl)])
      · exact hhead.congr (processReceive_of_ne (hu.loopHead env) (Ne.symm hb))
    exact hdone.congr (by rw [(finish_sendSide _).m_mapReceiver])

/-- As long as all were accepted the receiver keeps up, and that takes numbers from
`CONST_WINDOW` on. -/
structure Progress (a : SockAddr) (n : BitVec 32) (log : List Bool) (u : Udp) : Prop where
  consistent : Consistent u
  expects : (∀ b ∈ log, b = true) → u.Expects a (n + BitVec.ofNat 32 log.length + 1)
  accepted : (∀ b ∈ log, b = true) ↔
    ∀ k < log.length, CONST_WINDOW ≤ (n + BitVec.ofNat 32 k + 1).toNat

theorem forall_mem_append_singleton (log : List Bool) (b : Bool) :
    (∀ x ∈ log ++ [b], x = true) ↔ (∀ x ∈ log, x = true) ∧ b = true := by
  rw [List.forall_mem_append, List.forall_mem_singleton]

/-- The numbers of a packet and of the next one. -/
theorem number_succ (n : BitVec 32) (k : Nat) :
    n + BitVec.ofNat 32 (k + 1) + 1 = n + BitVec.ofNat 32 k + 1 + 1 := by
  have hone : BitVec.ofNat 32 1 = 1 := rfl
  rw [BitVec.ofNat_add, hone, BitVec.add_assoc n (BitVec.ofNat 32 k) 1]

theorem Progress.data (h : Progress a n log u) (hstep : u.step env (.receive a d) = some u')
    (hd : Carries d PACKAGE_DATA (n + BitVec.ofNat 32 log.length + 1)) :
    Progress a n (log ++ [(u.loopHead env).1.accepts a (n + BitVec.ofNat 32 log.length + 1)]) u' := by
  obtain ⟨hhead, hdone⟩ := step_receive hstep
  have haccepts (hall : ∀ b ∈ log, b = true) :
      (u.loopHead env).1.accepts a (n + BitVec.ofNat 32 log.length + 1) = true ↔
        CONST_WINDOW ≤ (n + BitVec.ofNat 32 log.length + 1).toNat :=
    Expects.accepts ((h.expects hall).congr (by rw [hhead]))
  refine ⟨h.consistent.step env hstep, fun hall => ?_, ?_⟩
  · obtain ⟨hbefore, haccept⟩ := (forall_mem_append_singleton _ _).mp hall
    obtain ⟨rs, hrs, hstatus, hseq⟩ := (h.expects hbefore).congr (by rw [hhead])
    obtain ⟨accesses, heq⟩ := processReceive_carries env (u.loopHead env).1 a hd
    have hdata : (u.loopHead env).1.processReceive env a d =
        { (u.loopHead env).1 with accesses := accesses }.receiveData env a
          (received d).bytes.length (UdpPkg.decode (received d)) := heq
    obtain ⟨rs', hrs', hopen, hnext⟩ := receiveData_next env
      { (u.loopHead env).1 with accesses := accesses } (received d).bytes.length
      hrs (by rw [hd.seq]; exact haccept) (hd.seq.trans hseq.symm)
    refine ⟨rs', ?_, .inr hopen, ?_⟩
    · rw [hdone, hdata]
      exact hrs'
    · rw [hnext, hd.seq, List.length_append, List.length_singleton, number_succ]
  · rw [forall_mem_append_singleton, List.length_append, List.length_singleton]
    constructor
    · rintro ⟨hbefore, haccept⟩ k hk
      rcases Nat.lt_succ_iff_lt_or_eq.mp hk with hk | rfl
      · exact h.accepted.mp hbefore k hk
      · exact (haccepts hbefore).mp haccept
    · intro hnumbers
      have hbefore := h.accepted.mpr fun k hk => hnumbers k (Nat.lt_succ_of_lt hk)
      exact ⟨hbefore, (haccepts hbefore).mpr (hnumbers _ (Nat.lt_succ_self _))⟩

theorem Arrived.progress (h : Arrived env a n log u) : Progress a n log u := by
  induction h with
  | syn hrun hstep hd =>
    refine ⟨(consistent_run _ hrun).step _ hstep, fun _ => ?_, by simp⟩
    obtain ⟨-, hdone⟩ := step_receive hstep
    obtain ⟨accesses, heq⟩ := processReceive_carries env (Udp.loopHead env _).1 a hd
    obtain ⟨rs, hrs, hopening, hseq⟩ := receiveSyn_expects env (a := a)
      (p := UdpPkg.decode (received _))
    refine ⟨rs, ?_, .inl hopening, ?_⟩
    · rw [hdone, heq]
      exact hrs
    · rw [hseq, hd.seq]
      simp
  | other h hstep hact ih =>
    exact ⟨ih.consistent.step env hstep, fun hall => step_expects ih.consistent (ih.expects hall)
      hstep hact, ih.accepted⟩
  | data h hstep hd ih => exact ih.data hstep hd

/-- No number from `n + 1` to `n + k` is below `CONST_WINDOW`. -/
theorem numbers_iff (n : BitVec 32) {k : Nat} (hk : 0 < k) :
    (∀ j < k, CONST_WINDOW ≤ (n + BitVec.ofNat 32 j + 1).toNat) ↔
      CONST_WINDOW - 1 ≤ n.toNat ∧ n.toNat + k < 2 ^ 32 := by
  have hn := n.isLt
  have h5 : CONST_WINDOW = 5 := rfl
  have hnumber (j : Nat) : (n + BitVec.ofNat 32 j + 1).toNat = (n.toNat + j + 1) % 2 ^ 32 := by
    simp [BitVec.toNat_add, Nat.add_assoc]
  simp only [hnumber, h5]
  constructor
  · intro h
    have hfirst := h 0 hk
    refine ⟨by omega, ?_⟩
    by_contra hge
    have hwrap := h (2 ^ 32 - 1 - n.toNat) (by omega)
    omega
  · rintro ⟨hle, hlt⟩ j hj
    omega

end Arrived

/-! ### The sender's window -/

section Windows
variable {window : Window} {expectSeq : BitVec 32}

/-- A packet that waits for its ACK is a window or more behind the new number, counted
modulo 2^32; the oldest is if any is. -/
def Behind (window : Window) (expectSeq : BitVec 32) : Prop :=
  ∃ i p, window i = some p ∧ CONST_WINDOW ≤ (expectSeq - p.seq).toNat

structure Least (window : Window) (seq : BitVec 32) : Prop where
  waits : ∃ i p, window i = some p ∧ p.seq = seq
  le : ∀ i p, window i = some p → seq ≤ p.seq

theorem Least.unique {seq seq' : BitVec 32} (h : Least window seq) (h' : Least window seq') :
    seq = seq' := by
  obtain ⟨i, p, hp, rfl⟩ := h.waits
  obtain ⟨j, q, hq, rfl⟩ := h'.waits
  exact BitVec.le_antisymm (h.le j q hq) (h'.le i p hp)

/-- The least number as it is, `INT_MAX` excepted, and both numbers as `int`s compare as
their distance does. -/
def Refuses (seq expectSeq : BitVec 32) : Prop :=
  (seq.toNat + CONST_WINDOW ≤ INT_MAX + 1 ∧ seq.toNat + CONST_WINDOW ≤ expectSeq.toNat ∧
    expectSeq.toNat ≤ INT_MAX) ∨
  (INT_MAX + 1 < seq.toNat + CONST_WINDOW ∧ seq.toNat < INT_MAX ∧
    (expectSeq.toNat ≤ INT_MAX ∨ seq.toNat + CONST_WINDOW ≤ expectSeq.toNat))

theorem minSeq_cases (window : Window) :
    minSeq window = 0x7fffffff ∨ ∃ i p, window i = some p ∧ p.seq = minSeq window := by
  have hfold (slots : List Slot) (m : BitVec 32) :
      let least := slots.foldl
        (fun m i => ((window i).map fun p => if p.seq < m then p.seq else m).getD m) m
      least = m ∨ ∃ i p, window i = some p ∧ p.seq = least := by
    induction slots generalizing m with
    | nil => exact .inl rfl
    | cons j slots ih =>
      rcases ih (((window j).map fun p => if p.seq < m then p.seq else m).getD m) with h | h
      · dsimp only [List.foldl_cons]
        rw [h]
        cases hj : window j with
        | none => exact .inl rfl
        | some p =>
          rw [Option.map_some, Option.getD_some]
          split
          · exact .inr ⟨j, p, hj, rfl⟩
          · exact .inl rfl
      · exact .inr h
  exact hfold (List.finRange CONST_WINDOW) 0x7fffffff

theorem minSeq_le_max (window : Window) : (minSeq window).toNat ≤ INT_MAX := by
  have hfold (slots : List Slot) (m : BitVec 32) :
      (slots.foldl (fun m i => ((window i).map fun p => if p.seq < m then p.seq else m).getD m) m) ≤
        m := by
    induction slots generalizing m with
    | nil => exact BitVec.le_refl m
    | cons j slots ih =>
      refine BitVec.le_trans (ih _) ?_
      dsimp only
      cases window j with
      | none => exact BitVec.le_refl m
      | some p =>
        rw [Option.map_some, Option.getD_some]
        split
        · exact BitVec.le_of_lt (by assumption)
        · exact BitVec.le_refl m
  exact hfold (List.finRange CONST_WINDOW) 0x7fffffff

theorem minSeq_eq_of_least {seq : BitVec 32} (h : Least window seq) (hlt : seq.toNat < INT_MAX) :
    minSeq window = seq := by
  obtain ⟨i, p, hp, rfl⟩ := h.waits
  have hle := minSeq_le hp
  rcases minSeq_cases window with hmax | ⟨j, q, hq, hseq⟩
  · rw [hmax, BitVec.le_def] at hle
    have hint : (0x7fffffff : BitVec 32).toNat = INT_MAX := rfl
    omega
  · have hge := h.le j q hq
    rw [hseq] at hge
    exact BitVec.le_antisymm hle hge

theorem least_minSeq (h : minSeq window ≠ 0x7fffffff) : Least window (minSeq window) := by
  rcases minSeq_cases window with hmax | hwaits
  · exact absurd hmax h
  · exact ⟨hwaits, fun i p hp => minSeq_le hp⟩

theorem emptyIndex_eq_none_iff : emptyIndex window = none ↔ ∀ i, window i ≠ none := by
  rw [emptyIndex, List.find?_eq_none]
  simp [Option.isNone_iff_eq_none]

/-- Above the least number the sender compares as `int`s. -/
theorem refuses_iff {seq : BitVec 32} (hne : seq ≠ 0x7fffffff) (hle : seq.toNat ≤ INT_MAX) :
    (seq + BitVec.ofNat 32 CONST_WINDOW - 1).toInt < expectSeq.toInt ↔ Refuses seq expectSeq := by
  have hlt : seq.toNat ≠ 2147483647 := fun h => hne (BitVec.eq_of_toNat_eq h)
  have he := expectSeq.isLt
  have hseq : (seq + BitVec.ofNat 32 CONST_WINDOW - 1).toNat = seq.toNat + 4 := by
    have h5 : (BitVec.ofNat 32 CONST_WINDOW).toNat = 5 := rfl
    have h1 : (1 : BitVec 32).toNat = 1 := rfl
    unfold INT_MAX at hle
    rw [BitVec.toNat_sub, BitVec.toNat_add, h5, h1]
    omega
  have h5 : CONST_WINDOW = 5 := rfl
  rw [BitVec.toInt_eq_toNat_cond, BitVec.toInt_eq_toNat_cond, hseq, Refuses, h5]
  unfold INT_MAX at hle ⊢
  split <;> split <;> omega

theorem checkEmptyWindow_eq_none_iff : checkEmptyWindow window expectSeq = none ↔
    (∀ i, window i ≠ none) ∨ ∃ seq, Least window seq ∧ Refuses seq expectSeq := by
  unfold checkEmptyWindow
  cases hempty : emptyIndex window with
  | none => exact iff_of_true rfl (.inl (emptyIndex_eq_none_iff.mp hempty))
  | some i =>
    have hfull : ¬ ∀ i, window i ≠ none := fun h => by
      rw [emptyIndex_eq_none_iff.mpr h] at hempty
      cases hempty
    dsimp only
    by_cases hmax : minSeq window = 0x7fffffff
    · have hnone : ¬ ∃ seq, Least window seq ∧ Refuses seq expectSeq := by
        rintro ⟨seq, hleast, hrefuses⟩
        have hlt : seq.toNat < INT_MAX := by
          have h5 : CONST_WINDOW = 5 := rfl
          unfold Refuses at hrefuses
          omega
        rw [minSeq_eq_of_least hleast hlt] at hmax
        rw [hmax] at hlt
        exact absurd hlt (by decide)
      rw [if_neg fun h => h.1 hmax]
      exact iff_of_false (by simp) (not_or.mpr ⟨hfull, hnone⟩)
    · have hleast := least_minSeq hmax
      have hle : (minSeq window).toNat ≤ INT_MAX := minSeq_le_max window
      have hsame : (∃ seq, Least window seq ∧ Refuses seq expectSeq) ↔
          Refuses (minSeq window) expectSeq := by
        constructor
        · rintro ⟨seq, hseq, hrefuses⟩
          rwa [← hseq.unique hleast]
        · exact fun h => ⟨_, hleast, h⟩
      rw [or_iff_right hfull, hsame, ← refuses_iff hmax hle]
      by_cases hcompare : (minSeq window + BitVec.ofNat 32 CONST_WINDOW - 1).toInt < expectSeq.toInt
      · rw [if_pos ⟨hmax, hcompare⟩]
        exact iff_of_true rfl hcompare
      · rw [if_neg fun h => hcompare h.2]
        exact iff_of_false (by simp) hcompare

/-- What decides whether the window holds back a number that is too far ahead. -/
structure Held (window : Window) (expectSeq : BitVec 32) : Prop where
  held : Behind window expectSeq → (∃ i, window i = none) →
    ∃ seq, Least window seq ∧ Refuses seq expectSeq

theorem refused_iff_held :
    (Behind window expectSeq → checkEmptyWindow window expectSeq = none) ↔ Held window expectSeq := by
  rw [checkEmptyWindow_eq_none_iff]
  constructor
  · rintro h
    refine ⟨fun hbehind ⟨i, hi⟩ => ?_⟩
    rcases h hbehind with hfull | hrefuses
    · exact absurd hi (hfull i)
    · exact hrefuses
  · rintro ⟨h⟩ hbehind
    by_cases hfull : ∀ i, window i ≠ none
    · exact .inl hfull
    · obtain ⟨i, hi⟩ := not_forall.mp hfull
      exact .inr (h hbehind ⟨i, not_not.mp hi⟩)

end Windows

/-- Numbers near the ends of their range: on the receiver, all packets after a SYN are
accepted just when none has a number below `CONST_WINDOW`; on the sender, `Held`. -/
theorem sequences_iff {env : Env} {a : SockAddr} {n : BitVec 32} {log : List Bool} {u : Udp}
    (h : Arrived env a n log u) (hk : log ≠ []) (window : Window) (expectSeq : BitVec 32) :
    ((∀ b ∈ log, b = true) ↔ CONST_WINDOW - 1 ≤ n.toNat ∧ n.toNat + log.length < 2 ^ 32) ∧
    ((Behind window expectSeq → checkEmptyWindow window expectSeq = none) ↔ Held window expectSeq) :=
  ⟨h.progress.accepted.trans (numbers_iff n (List.length_pos_of_ne_nil hk)), refused_iff_held⟩

/-- A SYN with the given number, and one data packet. -/
def exampleArrivals (n : BitVec 32) : List Action :=
  [.receive examplePeer (craft PACKAGE_SYN n 0 []),
    .receive examplePeer (craft PACKAGE_DATA (n + 1) 1 [7])]

theorem arrived_example {n : BitVec 32} {b : Bool}
    (hrun : (run (step exampleEnv) Udp.new [.receive examplePeer (craft PACKAGE_SYN n 0 [])]).map
      (fun u => (u.loopHead exampleEnv).1.accepts examplePeer (n + 1)) = some b)
    (hsyn : Carries (craft PACKAGE_SYN n 0 []) PACKAGE_SYN n)
    (hdata : Carries (craft PACKAGE_DATA (n + 1) 1 [7]) PACKAGE_DATA (n + 1))
    (hend : (run (step exampleEnv) Udp.new (exampleArrivals n)).isSome) :
    ∃ u, Arrived exampleEnv examplePeer n [b] u := by
  obtain ⟨u', hu'⟩ := Option.isSome_iff_exists.mp hend
  obtain ⟨u, hsynStep, hrest⟩ := run_cons.mp hu'
  obtain ⟨v, hdataStep, -⟩ := run_cons.mp hrest
  rw [run, hsynStep] at hrun
  obtain rfl := Option.some.inj hrun
  have hnew : run (step exampleEnv) Udp.new [] = some Udp.new := rfl
  have harrived : Arrived exampleEnv examplePeer n [] u := .syn hnew hsynStep hsyn
  have hzero : n + BitVec.ofNat 32 ([] : List Bool).length + 1 = n + 1 := by simp
  have hnext := harrived.data hdataStep (by rwa [hzero])
  rw [hzero] at hnext
  exact ⟨v, hnext⟩

/-- One packet with the number 2^31 is out. -/
def exampleWindow : Window :=
  fun i => if i.val = 0 then some (UdpPkg.new.stamp PACKAGE_DATA 0x80000000) else none

theorem sequences_iff_middle : ∃ u, Arrived exampleEnv examplePeer 100000 [true] u ∧
    ((∀ b ∈ [true], b = true) ↔
      CONST_WINDOW - 1 ≤ (100000 : BitVec 32).toNat ∧ (100000 : BitVec 32).toNat + 1 < 2 ^ 32) ∧
    ((Behind exampleWindow 0x80000005 → checkEmptyWindow exampleWindow 0x80000005 = none) ↔
      Held exampleWindow 0x80000005) := by
  obtain ⟨u, hu⟩ := arrived_example (n := 100000) (b := true) (by decide +kernel) (by decide +kernel)
    (by decide +kernel) (by decide +kernel)
  exact ⟨u, hu, sequences_iff hu (by simp) exampleWindow 0x80000005⟩

/-- The packet 1 after a SYN 0 is refused as out of the window; behind the number 2^31 the
sender goes on to any number. -/
theorem sequences_fail :
    (∃ u, Arrived exampleEnv examplePeer 0 [false] u) ∧
    ¬ (Behind exampleWindow 0x80000005 → checkEmptyWindow exampleWindow 0x80000005 = none) := by
  have hbehind : Behind exampleWindow 0x80000005 :=
    ⟨⟨0, by decide⟩, UdpPkg.new.stamp PACKAGE_DATA 0x80000000, rfl, by decide +kernel⟩
  have hslot : (checkEmptyWindow exampleWindow 0x80000005).isSome := by decide +kernel
  refine ⟨arrived_example (by decide +kernel) (by decide +kernel) (by decide +kernel)
    (by decide +kernel), fun h => ?_⟩
  rw [h hbehind] at hslot
  cases hslot

end Udp

end Hardcoder.UDP
