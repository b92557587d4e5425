import Hardcoder.UdpDelivery
import Hardcoder.UdpNumbers

/-! The window of the sender and that of the receiver agree: what still waits for its
acknowledgement is no further back than the receiver looks. -/

namespace Hardcoder.UDP
open Stream Runs Relation
set_option autoImplicit false

/-- The datagram is answered with an ACK and changes nothing else. -/
def Udp.Answered (env : Env) (u : Udp) (sender : SockAddr) (d : Delivery UInt8) (p : UdpPkg) : Prop :=
  ∃ accesses, u.processReceive env sender d = sendAck env { u with accesses := accesses } sender
    { p with offset := p.offset + p.datalen.setWidth 32, datalen := 0 }

namespace Net

/-- The step leads to a state in which `a` has not counted to `INT_MAX` for `b`. -/
def Counting (envs : SockAddr → Env) (a b : SockAddr) (net : Net) (move : SockAddr × Udp.Action) :
    Prop :=
  ∀ net' ∈ net.step envs move, (net' a).Below b

instance (envs : SockAddr → Env) (a b : SockAddr) (net : Net) (move : SockAddr × Udp.Action) :
    Decidable (Counting envs a b net move) :=
  inferInstanceAs (Decidable (∀ net' ∈ net.step envs move, (net' a).Below b))

theorem windowed_step {envs : SockAddr → Env} {a b : SockAddr} {net net' : Net}
    {move : SockAddr × Udp.Action} (hconsistent : ∀ n, (net n).Consistent)
    (hwindowed : (net a).Windowed b) (hbelow : (net a).Below b)
    (hstep : net.step envs move = some net') (hbelow' : (net' a).Below b) : (net' a).Windowed b := by
  obtain ⟨n, action⟩ := move
  obtain ⟨-, hstep⟩ := Option.ite_none_right_eq_some.mp hstep
  obtain ⟨u, hu, rfl⟩ := Option.map_eq_some_iff.mp hstep
  by_cases hn : a = n
  · subst hn
    rw [set_self] at hbelow' ⊢
    exact Udp.step_windowed (hconsistent a) hwindowed hbelow hu hbelow'
  · rwa [set_of_ne net n u hn]

section Agreement
variable {a b : SockAddr} {clean : Prop} {net : Net} {m r high : Nat} {done : List Nat}
  {ss : Sender} {rs : Receiver} {i : Slot} {p : UdpPkg}

/-- The numbers of a waiting packet and of the one the receiver expects, counted from the
first fragment. -/
theorem Linked.numbers (h : Linked a b clean m r high done net) (hwindowed : (net a).Windowed b)
    (hbelow : (net a).Below b) (hss : (net a).m_mapSender.get? b = some ss)
    (hp : ss.packets i = some p) (hrs : (net b).m_mapReceiver.get? a = some rs) :
    ∃ k f, ((net a).fragmentsTo b)[k]? = some f ∧ p = dataPkg f k ∧
      rs.Expects ((net a).fragmentsTo b) r ∧ p.seq.toNat = 100001 + k ∧
      rs.expectedSeq.toNat = 100001 + r ∧ rs.expectedSeq.toNat < 2 ^ 31 ∧ r ≤ k + CONST_WINDOW := by
  have hsends : ss.Sends ((net a).fragmentsTo b) m high done := by
    rcases h.sending.sender with ⟨hnone, -, -⟩ | ⟨ss', hss', hsends⟩
    · cases hnone.symm.trans hss
    · obtain rfl := Option.some.inj (hss'.symm.trans hss)
      exact hsends
  have hexpects : rs.Expects ((net a).fragmentsTo b) r := by
    rcases h.receiving.receiver with ⟨hnone, -⟩ | ⟨rs', hrs', hexpects⟩
    · cases hnone.symm.trans hrs
    · obtain rfl := Option.some.inj (hrs'.symm.trans hrs)
      exact hexpects
  obtain ⟨k, hk, f, hf, rfl⟩ := hsends.slots i p hp
  have hwindow := hwindowed ss hss
  have hstart := hwindow.start
  have hnear := hwindow.near i _ hp
  have hlast := hbelow ss hss
  have hseq : (dataPkg f k).seq.toNat = (100001 + k) % 2 ^ 32 := BitVec.toNat_ofNat _ _
  have hexpected := congrArg BitVec.toNat hexpects.expectedSeq
  rw [BitVec.toNat_ofNat] at hexpected
  rw [hsends.seq, BitVec.toNat_ofNat] at hstart hnear hlast
  have hhigh := h.sending.high_lt
  have hle := h.sending.high_le
  have hm := h.sending.m_le
  have hr := h.receiving.r_le
  unfold INT_MAX at hlast
  unfold CONST_WINDOW at hnear hm ⊢
  exact ⟨k, f, hf, rfl, hexpects, by omega, by omega, by omega, by omega⟩

/-- A number the receiver has passed by at most a window is inside the window it looks at. -/
theorem in_window {seq expected : BitVec 32} (hlt : seq.toNat < expected.toNat)
    (hnear : expected.toNat ≤ seq.toNat + CONST_WINDOW) (hstart : CONST_WINDOW ≤ expected.toNat) :
    ¬ (seq < expected - BitVec.ofNat 32 CONST_WINDOW ∨ expected < seq) := by
  unfold CONST_WINDOW at *
  rw [BitVec.lt_def, BitVec.lt_def, BitVec.toNat_sub, BitVec.toNat_ofNat]
  have hseq := seq.isLt
  have hexpected := expected.isLt
  omega

theorem answered_copy {env : Env} {u : Udp} {f : UdpPkg} {k : Nat} {d : Delivery UInt8}
    {frags : List UdpPkg} (hfits : f.data.length = f.datalen.toNat ∧ f.datalen.toNat ≤ CONST_MAXPKTSIZE)
    (hd : d.bytes = (dataPkg f k).bytes) (hrs : u.m_mapReceiver.get? a = some rs)
    (hexpects : rs.Expects frags r) (hlt : (dataPkg f k).seq.toNat < rs.expectedSeq.toNat)
    (hnear : rs.expectedSeq.toNat ≤ (dataPkg f k).seq.toNat + CONST_WINDOW)
    (hstart : CONST_WINDOW ≤ rs.expectedSeq.toNat) : u.Answered env a d (dataPkg f k) := by
  have hdecode : UdpPkg.decode ⟨d.bytes.take UdpPkg.size, d.beyond⟩ = dataPkg f k := by
    rw [hd]
    exact @UdpPkg.decode_fits (dataPkg f k) hfits.1 hfits.2 d.beyond
  have hlength : (d.bytes.take UdpPkg.size).length ≠ 0 := by
    rw [hd, UdpPkg.bytes, List.length_take, List.length_append, UdpPkg.length_header]
    unfold UdpPkg.size UdpPkg.headerSize CONST_MAXPKTSIZE
    omega
  have hstatus : ¬ (rs.status ≠ .OPENING ∧ rs.status ≠ .OPEN) := by
    rintro ⟨hopening, hopen⟩
    rcases hexpects.status with hs | hs
    · exact hopening hs.1
    · exact hopen hs
  have hnew : (dataPkg f k).seq ≠ rs.expectedSeq := fun heq => by
    rw [heq] at hlt
    exact lt_irrefl _ hlt
  have hcrc : ¬ (dataPkg f k).crc ≠ (dataPkg f k).datacrc := not_not.mpr (UdpPkg.crc_stamp f _ _)
  have htype : (dataPkg f k).type = PACKAGE_DATA := rfl
  have hsyn : (dataPkg f k).type ≠ PACKAGE_SYN := by
    rw [htype]
    decide
  refine ⟨u.accesses ++ [.crc (dataPkg f k).pkgLen (d.bytes.take UdpPkg.size).length], ?_⟩
  unfold Udp.processReceive
  dsimp only
  rw [if_neg hlength, hdecode, if_neg hcrc, if_neg hsyn, if_pos htype]
  unfold Udp.receiveData
  dsimp only
  rw [hrs]
  dsimp only
  rw [if_neg hstatus, if_neg (in_window hlt hnear hstart), if_neg hnew]

end Agreement

/-- What still waits at `a` and was accepted at `b` is at most a window behind what `b`
expects, so that a copy of it is answered whenever it comes. -/
theorem windows_agree {envs : SockAddr → Env} {a b : SockAddr} {moves : List (SockAddr × Udp.Action)}
    {net : Net} (hrun : run (step envs) Net.new moves = some net)
    (hcount : Along (step envs) (Counting envs a b) Net.new moves)
    {ss : Sender} {rs : Receiver} {i : Slot} {p : UdpPkg}
    (hss : (net a).m_mapSender.get? b = some ss) (hp : ss.packets i = some p)
    (hrs : (net b).m_mapReceiver.get? a = some rs) (hlt : p.seq.toNat < rs.expectedSeq.toNat) :
    rs.expectedSeq.toNat ≤ p.seq.toNat + CONST_WINDOW ∧
      ∀ d : Delivery UInt8, d.bytes = p.bytes →
        ((net b).loopHead (envs b)).1.Answered (envs b) a d p := by
  obtain ⟨hlink, hwindowed, hbelow⟩ := @run_invariant _ _ (step envs) (Counting envs a b)
    (fun net => Link a b False net ∧ (net a).Windowed b ∧ (net a).Below b)
    (fun h hcount hstep => ⟨h.1.step False.elim hstep,
      windowed_step h.1.consistent h.2.1 h.2.2 hstep (hcount _ hstep), hcount _ hstep⟩) _ _ _
    ⟨.new a b False, Udp.windowed_new b, Udp.below_new b⟩ hcount hrun
  obtain ⟨m, r, high, done, hlinked⟩ := hlink.linked
  obtain ⟨k, f, hf, rfl, hexpects, hseq, hexpected, hnear⟩ :=
    hlinked.numbers hwindowed hbelow hss hp hrs
  have hclose : rs.expectedSeq.toNat ≤ (dataPkg f k).seq.toNat + CONST_WINDOW := by omega
  refine ⟨hclose, fun d hd => ?_⟩
  have hrs' : ((net b).loopHead (envs b)).1.m_mapReceiver.get? a = some rs := by
    rw [(Udp.loopHead_sendSide (envs b) (net b)).m_mapReceiver]
    exact hrs
  have hstart : CONST_WINDOW ≤ rs.expectedSeq.toNat := by
    unfold CONST_WINDOW
    omega
  exact answered_copy (fragmentsTo_fits hf) hd hrs' hexpects hlt hclose hstart

/-- The fragment was accepted, its ACK has not arrived. -/
theorem windows_agree_unacknowledged : ∃ net ss rs p,
    run (step fun _ => exampleEnv) Net.new exampleMoves = some net ∧
    (net exampleHost).m_mapSender.get? examplePeer = some ss ∧
    ss.packets (Fin.last 4) = some p ∧ (net examplePeer).m_mapReceiver.get? exampleHost = some rs ∧
    p.seq.toNat < rs.expectedSeq.toNat ∧ rs.expectedSeq.toNat ≤ p.seq.toNat + CONST_WINDOW := by
  have hrun : (run (step fun _ => exampleEnv) Net.new exampleMoves).map (fun net =>
      (((net exampleHost).m_mapSender.get? examplePeer).bind fun ss =>
        (ss.packets (Fin.last 4)).map (·.seq.toNat),
      ((net examplePeer).m_mapReceiver.get? exampleHost).map (·.expectedSeq.toNat))) =
        some (some 100001, some 100002) := by decide +kernel
  obtain ⟨net, hnet, heq⟩ := Option.map_eq_some_iff.mp hrun
  obtain ⟨hsender, hreceiver⟩ := Prod.mk.inj heq
  obtain ⟨ss, hss, hpacket⟩ := Option.bind_eq_some_iff.mp hsender
  obtain ⟨p, hp, hseq⟩ := Option.map_eq_some_iff.mp hpacket
  obtain ⟨rs, hrs, hexpected⟩ := Option.map_eq_some_iff.mp hreceiver
  have hlt : p.seq.toNat < rs.expectedSeq.toNat := by omega
  exact ⟨net, ss, rs, p, hnet, hss, hp, hrs, hlt,
    (windows_agree hnet (along_of_check (by decide +kernel)) hss hp hrs hlt).1⟩

end Net

end Hardcoder.UDP
