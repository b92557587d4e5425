import Hardcoder.UdpReceive
import Hardcoder.UdpInputBounds

/-! What a datagram does to the loop and to the other peers: the result of `sendto` for its
answer decides whether the loop goes on. -/

namespace Hardcoder.UDP
open Stream Runs
set_option autoImplicit false

/-- In the received struct and in the session's buffer. -/
def Access.Inside : Access → Prop
  | .crc pkgLen _ => pkgLen ≤ UdpPkg.size
  | .copy pkgLen _ writeEnd alloc => pkgLen ≤ UdpPkg.size ∧ writeEnd ≤ alloc

instance (rs : Receiver) (p : UdpPkg) : Decidable (rs.Accepts p) :=
  inferInstanceAs (Decidable (_ ∧ _ ∧ _ ∧ _ ∧ _))

namespace Udp

/-! ### What is read and written -/

/-- The `memcpy` for a fragment that its receiver accepts. -/
def copyOf (u : Udp) (sender : SockAddr) (p : UdpPkg) (recvRet : Nat) : Option Access :=
  (u.m_mapReceiver.get? sender).bind fun rs =>
    if rs.Accepts p then
      (sessionOf p rs).map fun s => .copy p.pkgLen recvRet (s.first.toNat + p.datalen.toNat) s.alloc
    else none

theorem mem_copyOf {u : Udp} {sender : SockAddr} {p : UdpPkg} {recvRet : Nat} {x : Access} :
    x ∈ (u.copyOf sender p recvRet).toList ↔ ∃ rs s, u.m_mapReceiver.get? sender = some rs ∧
      rs.Accepts p ∧ sessionOf p rs = some s ∧
      x = .copy p.pkgLen recvRet (s.first.toNat + p.datalen.toNat) s.alloc := by
  rw [Option.mem_toList, copyOf, Option.bind_eq_some_iff]
  constructor
  · rintro ⟨rs, hrs, h⟩
    obtain ⟨haccepts, h⟩ := Option.ite_none_right_eq_some.mp h
    obtain ⟨s, hs, rfl⟩ := Option.map_eq_some_iff.mp h
    exact ⟨rs, s, hrs, haccepts, hs, rfl⟩
  · rintro ⟨rs, s, hrs, haccepts, hs, rfl⟩
    exact ⟨rs, hrs, by rw [if_pos haccepts, hs]; rfl⟩

section Accesses
variable (env : Env) (u : Udp) (sender : SockAddr) {p : UdpPkg}

theorem accesses_sendAck (v : Udp) (q : UdpPkg) : (v.sendAck env sender q).1.accesses = v.accesses :=
  (sendAck_sendSide env v sender q).accesses

theorem accesses_receiveSyn : (u.receiveSyn env sender p).1.accesses = u.accesses := by
  unfold receiveSyn
  dsimp only
  rw [accesses_sendAck]
  split
  · split <;> rfl
  · rfl

theorem accesses_receiveFin : (u.receiveFin env sender p).1.accesses = u.accesses := by
  unfold receiveFin
  split
  · rw [accesses_sendAck]
  · split
    · rfl
    · exact accesses_sendAck env sender u { p with datalen := 0 }

theorem accesses_receiveData {recvRet : Nat} (hcrc : p.crc = p.datacrc)
    (htype : p.type = PACKAGE_DATA) :
    (u.receiveData env sender recvRet p).1.accesses =
      u.accesses ++ (u.copyOf sender p recvRet).toList := by
  unfold receiveData copyOf
  cases hrs : u.m_mapReceiver.get? sender with
  | none => exact (List.append_nil _).symm
  | some rs =>
    have hrejected (h : ¬ rs.Accepts p) : u.accesses = u.accesses ++
        ((some rs).bind fun rs => if rs.Accepts p then (sessionOf p rs).map fun s => Access.copy p.pkgLen
          recvRet (s.first.toNat + p.datalen.toNat) s.alloc else none).toList := by
      rw [Option.bind_some, if_neg h, Option.toList_none, List.append_nil]
    dsimp only
    split
    · rename_i hstatus
      exact hrejected fun h => h.2.2.1.elim hstatus.1 hstatus.2
    split
    · rename_i hwindow
      refine hrejected fun h => hwindow.elim h.2.2.2.2 fun hhigh => ?_
      exact absurd (h.2.2.2.1 ▸ hhigh) (BitVec.lt_irrefl _)
    rename_i hstatus hwindow
    rw [accesses_sendAck]
    split
    · rename_i hseq
      have haccept : rs.Accepts p := by
        refine ⟨hcrc, htype, ?_, hseq, fun hlow => hwindow (.inl hlow)⟩
        by_contra hno
        exact hstatus ⟨fun h => hno (.inl h), fun h => hno (.inr h)⟩
      have hsession : sessionOf p { rs with status := .OPEN, expectedSeq := p.seq + 1 } =
          sessionOf p rs := rfl
      rw [Option.bind_some, if_pos haccept, ← hsession, ← dataRecv_access]
    · rename_i hseq
      exact hrejected fun h => hseq h.2.2.2.1

/-- What the handling of a datagram reads and writes. -/
def accessesOf (u : Udp) (sender : SockAddr) (d : Delivery UInt8) : List Access :=
  if (received d).bytes = [] then []
  else
    .crc (UdpPkg.decode (received d)).pkgLen (received d).bytes.length ::
      (u.copyOf sender (UdpPkg.decode (received d)) (received d).bytes.length).toList

theorem copyOf_of_not_data {recvRet : Nat} (h : ¬ (p.crc = p.datacrc ∧ p.type = PACKAGE_DATA)) :
    u.copyOf sender p recvRet = none := by
  unfold copyOf
  cases u.m_mapReceiver.get? sender with
  | none => rfl
  | some rs => exact if_neg fun haccepts => h ⟨haccepts.1, haccepts.2.1⟩

variable {d : Delivery UInt8}

theorem processReceive_of_bytes (hbytes : (received d).bytes ≠ [])
    (hp : UdpPkg.decode (received d) = p) :
    u.processReceive env sender d =
      let v := { u with accesses := u.accesses ++ [.crc p.pkgLen (received d).bytes.length] }
      if p.crc ≠ p.datacrc then (v, 0)
      else if p.type = PACKAGE_SYN then v.receiveSyn env sender p
      else if p.type = PACKAGE_DATA then v.receiveData env sender (received d).bytes.length p
      else if p.type = PACKAGE_FIN then v.receiveFin env sender p
      else if p.type = PACKAGE_ACK then (v.receiveAck sender p, 0)
      else (v, 0) := by
  subst hp
  exact if_neg fun h => hbytes (List.length_eq_zero_iff.mp h)

theorem processReceive_of_empty (hbytes : (received d).bytes = []) :
    u.processReceive env sender d = (u, 0) :=
  if_pos (List.length_eq_zero_iff.mpr hbytes)

theorem accesses_processReceive (d : Delivery UInt8) :
    (u.processReceive env sender d).1.accesses = u.accesses ++ u.accessesOf sender d := by
  unfold accessesOf
  by_cases hbytes : (received d).bytes = []
  · rw [processReceive_of_empty env u sender hbytes, if_pos hbytes, List.append_nil]
  rw [if_neg hbytes]
  generalize hp : UdpPkg.decode (received d) = p
  rw [processReceive_of_bytes env u sender hbytes hp]
  have hquiet {v : Udp} (h : ¬ (p.crc = p.datacrc ∧ p.type = PACKAGE_DATA))
      (hv : v.accesses = u.accesses ++ [.crc p.pkgLen (received d).bytes.length]) :
      v.accesses = u.accesses ++ .crc p.pkgLen (received d).bytes.length ::
        (u.copyOf sender p (received d).bytes.length).toList := by
    rw [copyOf_of_not_data u sender h, hv, Option.toList_none]
  dsimp only
  split
  · rename_i hfaulty
    exact hquiet (fun h => hfaulty h.1) rfl
  rename_i hcrc
  split
  · rename_i htype
    exact hquiet (fun h => absurd (htype.symm.trans h.2) (by decide)) (accesses_receiveSyn _ _ _)
  split
  · rename_i htype
    rw [accesses_receiveData _ _ _ (not_not.mp hcrc) htype, List.append_assoc]
    rfl
  rename_i htype
  split
  · exact hquiet (fun h => htype h.2) (accesses_receiveFin _ _ _)
  split
  · exact hquiet (fun h => htype h.2) (receiveAck_sendSide _ _ _).accesses
  · exact hquiet (fun h => htype h.2) rfl

end Accesses

/-! ### What is left alone -/

/-- Sender, receiver and timers of another peer are as they were. -/
structure Spared (b : SockAddr) (u v : Udp) : Prop where
  sender : v.m_mapSender.get? b = u.m_mapSender.get? b
  receiver : v.m_mapReceiver.get? b = u.m_mapReceiver.get? b
  timers : v.m_eventTimerList.filter (fun e => e.addr = b) =
    u.m_eventTimerList.filter fun e => e.addr = b

section Spared
variable {env : Env} {u v w : Udp} {sender b : SockAddr} {p : UdpPkg}

theorem Spared.refl (b : SockAddr) (u : Udp) : Spared b u u := ⟨rfl, rfl, rfl⟩

theorem Spared.trans (h : Spared b u v) (h' : Spared b v w) : Spared b u w :=
  ⟨h'.sender.trans h.sender, h'.receiver.trans h.receiver, h'.timers.trans h.timers⟩

theorem ReceiveSide.spared (h : ReceiveSide sender p u v) (hb : b ≠ sender) : Spared b u v :=
  ⟨by rw [h.m_mapSender], h.receivers b hb, by rw [h.m_eventTimerList]⟩

theorem deleteTimeoutEvent_spared {e : EventId} (hb : b ≠ e.addr) :
    Spared b u (u.deleteTimeoutEvent e) := by
  refine ⟨rfl, rfl, ?_⟩
  rw [deleteTimeoutEvent, ← List.erase_filter, List.erase_of_not_mem]
  simp [Ne.symm hb]

theorem modifySender_spared (hb : b ≠ sender) (f : Sender → Sender) :
    Spared b u (u.modifySender sender f) := by
  refine ⟨get?_modifySender_of_ne u f hb, ?_, ?_⟩ <;> rw [modifySender_eq]

theorem receiveAck_spared (hu : Consistent u) (hb : b ≠ sender) :
    Spared b u (u.receiveAck sender p) := by
  have hfree (i : Slot) : Spared b u (u.freeSlot sender i) :=
    (deleteTimeoutEvent_spared hb).trans (modifySender_spared hb _)
  have hcases := @receiveAck_cases u sender p hu
  generalize u.receiveAck sender p = v at hcases
  cases hcases with
  | ignored => exact .refl b u
  | opened hss hstatus hseq =>
    exact (deleteTimeoutEvent_spared hb).trans (modifySender_spared hb _)
  | freed hss hstatus hi hmore => exact hfree _
  | finished hss hstatus hi hlast => exact (hfree _).trans ⟨rfl, rfl, rfl⟩

theorem processReceive_spared (hu : Consistent u) (hb : b ≠ sender) (d : Delivery UInt8) :
    Spared b u (u.processReceive env sender d).1 := by
  obtain ⟨accesses, hhandled⟩ := processReceive_cases env u sender d
  have hread : Spared b u { u with accesses := accesses } := ⟨rfl, rfl, rfl⟩
  have hconsistent : Consistent { u with accesses := accesses } := hu.congr rfl rfl rfl
  generalize u.processReceive env sender d = out at hhandled
  cases hhandled with
  | ignored => exact hread
  | syn htype => exact hread.trans ((receiveSyn_side env hconsistent htype).spared hb)
  | data htype => exact hread.trans ((receiveData_side env hconsistent htype _).spared hb)
  | fin htype => exact hread.trans ((receiveFin_side env hconsistent htype).spared hb)
  | ack htype => exact hread.trans (receiveAck_spared hconsistent hb)

end Spared

/-! ### What is answered -/

/-- A correct packet that gets an ACK: a SYN, a fragment within the window of its open receiver,
or a FIN that is not out of sequence. -/
def Answers (u : Udp) (sender : SockAddr) (p : UdpPkg) : Prop :=
  p.crc = p.datacrc ∧
    (p.type = PACKAGE_SYN ∨
      (p.type = PACKAGE_DATA ∧ ∃ rs, u.m_mapReceiver.get? sender = some rs ∧
        (rs.status = .OPENING ∨ rs.status = .OPEN) ∧
        ¬ (p.seq < rs.expectedSeq - BitVec.ofNat 32 CONST_WINDOW ∨ rs.expectedSeq < p.seq)) ∨
      (p.type = PACKAGE_FIN ∧ ∀ rs, u.m_mapReceiver.get? sender = some rs → p.seq = rs.expectedSeq))

section Result
variable (env : Env) (u : Udp) (sender : SockAddr) {p : UdpPkg}

/-- The result of `sendto` for an answer, and 0 without one. -/
def Result (answers : Prop) (ret : Int) : Prop :=
  (answers → ret = env.sendto u.ticks) ∧ (¬ answers → ret = 0)

variable {env u} in
theorem Result.congr {answers answers' : Prop} {ret : Int} (h : Result env u answers ret)
    (hiff : answers' ↔ answers) : Result env u answers' ret :=
  ⟨fun ha => h.1 (hiff.mp ha), fun ha => h.2 fun ha' => ha (hiff.mpr ha')⟩

theorem result_sendAck {v : Udp} (hv : v.ticks = u.ticks) (q : UdpPkg) :
    Result env u True (v.sendAck env sender q).2 := by
  refine ⟨fun _ => ?_, fun h => absurd trivial h⟩
  rw [sendAck_eq, ← hv]
  rfl

theorem result_none : Result env u False 0 := ⟨fun h => h.elim, fun _ => rfl⟩

theorem result_receiveSyn : Result env u True (u.receiveSyn env sender p).2 := by
  unfold receiveSyn
  dsimp only
  apply result_sendAck
  split
  · split <;> rfl
  · rfl

theorem result_receiveData (recvRet : Nat) :
    Result env u (∃ rs, u.m_mapReceiver.get? sender = some rs ∧
        (rs.status = .OPENING ∨ rs.status = .OPEN) ∧
        ¬ (p.seq < rs.expectedSeq - BitVec.ofNat 32 CONST_WINDOW ∨ rs.expectedSeq < p.seq))
      (u.receiveData env sender recvRet p).2 := by
  unfold receiveData
  cases hrs : u.m_mapReceiver.get? sender with
  | none => exact (result_none env u).congr (by simp)
  | some rs =>
    dsimp only
    split
    · rename_i hstatus
      refine (result_none env u).congr (iff_of_false ?_ id)
      rintro ⟨rs', hrs', hopen, -⟩
      obtain rfl := Option.some.inj hrs'
      exact hopen.elim hstatus.1 hstatus.2
    rename_i hstatus
    split
    · rename_i hwindow
      refine (result_none env u).congr (iff_of_false ?_ id)
      rintro ⟨rs', hrs', -, hin⟩
      obtain rfl := Option.some.inj hrs'
      exact hin hwindow
    · rename_i hwindow
      have hopen : rs.status = .OPENING ∨ rs.status = .OPEN := by
        by_contra hno
        exact hstatus ⟨fun h => hno (.inl h), fun h => hno (.inr h)⟩
      refine Result.congr (result_sendAck env u sender ?_ _) (iff_of_true ⟨rs, rfl, hopen, hwindow⟩ trivial)
      split <;> rfl

theorem result_receiveFin :
    Result env u (∀ rs, u.m_mapReceiver.get? sender = some rs → p.seq = rs.expectedSeq)
      (u.receiveFin env sender p).2 := by
  unfold receiveFin
  cases hrs : u.m_mapReceiver.get? sender with
  | none => exact (result_sendAck env u sender rfl p).congr (by simp)
  | some rs =>
    dsimp only
    split
    · rename_i hseq
      exact (result_none env u).congr (iff_of_false (fun h => hseq (h rs rfl)) id)
    · rename_i hseq
      refine (result_sendAck env u sender rfl { p with datalen := 0 }).congr (iff_of_true ?_ trivial)
      intro rs' hrs'
      obtain rfl := Option.some.inj hrs'
      exact not_not.mp hseq

theorem result_processReceive (d : Delivery UInt8) :
    Result env u ((received d).bytes ≠ [] ∧ u.Answers sender (UdpPkg.decode (received d)))
      (u.processReceive env sender d).2 := by
  by_cases hbytes : (received d).bytes = []
  · rw [processReceive_of_empty env u sender hbytes]
    exact (result_none env u).congr (iff_of_false (fun h => h.1 hbytes) id)
  generalize hp : UdpPkg.decode (received d) = p
  rw [processReceive_of_bytes env u sender hbytes hp]
  unfold Answers
  dsimp only
  split
  · rename_i hfaulty
    exact (result_none env u).congr (iff_of_false (fun h => hfaulty h.2.1) id)
  rename_i hcrc
  have hcorrect : p.crc = p.datacrc := not_not.mp hcrc
  split
  · rename_i htype
    exact (result_receiveSyn env { u with accesses := _ } sender).congr
      (iff_of_true ⟨hbytes, hcorrect, .inl htype⟩ trivial)
  rename_i hsyn
  split
  · rename_i htype
    refine (result_receiveData env { u with accesses := _ } sender _).congr ⟨?_, fun h => ?_⟩
    · rintro ⟨-, -, h | ⟨-, h⟩ | ⟨h, -⟩⟩
      · exact absurd h hsyn
      · exact h
      · exact absurd (htype.symm.trans h) (by decide)
    · exact ⟨hbytes, hcorrect, .inr (.inl ⟨htype, h⟩)⟩
  rename_i hdata
  split
  · rename_i htype
    refine (result_receiveFin env { u with accesses := _ } sender).congr ⟨?_, fun h => ?_⟩
    · rintro ⟨-, -, h | ⟨h, -⟩ | ⟨-, h⟩⟩
      · exact absurd h hsyn
      · exact absurd h hdata
      · exact h
    · exact ⟨hbytes, hcorrect, .inr (.inr ⟨htype, h⟩)⟩
  rename_i hfin
  have hquiet : ¬ ((received d).bytes ≠ [] ∧ u.Answers sender p) := by
    rintro ⟨-, -, h | ⟨h, -⟩ | ⟨h, -⟩⟩
    · exact hsyn h
    · exact hdata h
    · exact hfin h
  split <;> exact (result_none env u).congr (iff_of_false hquiet id)

end Result

/-! ### Along a run -/

/-- The pass goes on after the datagram, which has changed nothing of another peer and read and
written in its own packet and buffer only. -/
def Survives (env : Env) (u : Udp) : Action → Prop
  | .receive sender d => ∀ v, u.step env (.receive sender d) = some v →
      v.running = true ∧ (∀ b ≠ sender, Spared b (u.loopHead env).1 v) ∧
        ∃ new, v.accesses = u.accesses ++ new ∧ ∀ x ∈ new, x.Inside
  | _ => True

/-- What `sendto` returns for an answer is not negative, and the data of the packet fits into the
struct and into the buffer of its session. -/
def Harmless (env : Env) (u : Udp) : Action → Prop
  | .receive sender d => u.running = true → (u.loopHead env).2 = none → (received d).bytes ≠ [] →
      (u.Answers sender (UdpPkg.decode (received d)) → 0 ≤ env.sendto (u.loopHead env).1.ticks) ∧
      (UdpPkg.decode (received d)).datalen.toNat ≤ CONST_MAXPKTSIZE ∧
      ∀ rs s, u.m_mapReceiver.get? sender = some rs → rs.Accepts (UdpPkg.decode (received d)) →
        sessionOf (UdpPkg.decode (received d)) rs = some s →
          s.first.toNat + (UdpPkg.decode (received d)).datalen.toNat ≤ s.alloc
  | _ => True

section Step
variable (env : Env) {u : Udp}

theorem inside_accessesOf (sender : SockAddr) (d : Delivery UInt8) :
    (∀ x ∈ u.accessesOf sender d, x.Inside) ↔ ((received d).bytes ≠ [] →
      (UdpPkg.decode (received d)).datalen.toNat ≤ CONST_MAXPKTSIZE ∧
      ∀ rs s, u.m_mapReceiver.get? sender = some rs → rs.Accepts (UdpPkg.decode (received d)) →
        sessionOf (UdpPkg.decode (received d)) rs = some s →
          s.first.toNat + (UdpPkg.decode (received d)).datalen.toNat ≤ s.alloc) := by
  unfold accessesOf
  split
  · rename_i hbytes
    exact iff_of_true (fun _ hx => nomatch hx) fun h => absurd hbytes h
  rename_i hbytes
  generalize UdpPkg.decode (received d) = p
  have hsize : p.pkgLen ≤ UdpPkg.size ↔ p.datalen.toNat ≤ CONST_MAXPKTSIZE :=
    Nat.add_le_add_iff_left
  rw [List.forall_mem_cons, Access.Inside, hsize, imp_iff_right hbytes]
  refine and_congr_right fun hlen => ⟨fun h rs s hrs haccepts hs => ?_, fun h x hx => ?_⟩
  · exact (h _ (mem_copyOf.mpr ⟨rs, s, hrs, haccepts, hs, rfl⟩)).2
  · obtain ⟨rs, s, hrs, haccepts, hs, rfl⟩ := mem_copyOf.mp hx
    exact ⟨hsize.mpr hlen, h rs s hrs haccepts hs⟩

theorem running_sendPackage (u : Udp) (addr : SockAddr) (pkg : UdpPkg) :
    (u.sendPackage env addr pkg).1.running = u.running := by
  obtain ⟨_, _, _, hfields⟩ := sendPackage_fields env u addr pkg
  rw [hfields]
  rfl

theorem running_loopHead (u : Udp) : (u.loopHead env).1.running = u.running := by
  refine @steps_invariant _ (SendStep env) (fun v => v.running = u.running) (fun {v w} hv hstep => ?_)
    { u with ticks := u.ticks + 1 } _ rfl (checkSendQueue_steps env _)
  rw [← hv]
  cases hstep with
  | create addr =>
    unfold getSender
    split
    · rfl
    · exact running_sendPackage env _ _ _
  | take hqueue hss hempty =>
    rw [modifySender_eq]
  | number h =>
    obtain ⟨hss, hqueue, hslot⟩ := h
    exact running_sendPackage env _ _ _

theorem running_receiveSyn (sender : SockAddr) (p : UdpPkg) :
    (u.receiveSyn env sender p).1.running = u.running := by
  unfold receiveSyn
  dsimp only
  rw [sendAck, running_sendPackage]
  split
  · split <;> rfl
  · rfl

theorem running_receiveData (sender : SockAddr) (recvRet : Nat) (p : UdpPkg) :
    (u.receiveData env sender recvRet p).1.running = u.running := by
  unfold receiveData
  split
  · rfl
  split
  · rfl
  split
  · rfl
  rw [sendAck, running_sendPackage]
  split <;> rfl

theorem running_receiveFin (sender : SockAddr) (p : UdpPkg) :
    (u.receiveFin env sender p).1.running = u.running := by
  unfold receiveFin
  split
  · exact running_sendPackage env _ _ _
  split
  · rfl
  · exact running_sendPackage env u sender (UdpPkg.stamp { p with datalen := 0 } PACKAGE_ACK p.seq)

theorem running_receiveAck (hu : Consistent u) (sender : SockAddr) (p : UdpPkg) :
    (u.receiveAck sender p).running = u.running := by
  have hcases := @receiveAck_cases u sender p hu
  generalize u.receiveAck sender p = v at hcases
  have hfree (i : Slot) : (u.freeSlot sender i).running = u.running := by
    rw [freeSlot, modifySender_eq]
    rfl
  cases hcases with
  | ignored => rfl
  | opened hss hstatus hseq => rw [modifySender_eq]; rfl
  | freed hss hstatus hi hmore => exact hfree _
  | finished hss hstatus hi hlast => exact hfree _

theorem running_processReceive (hu : Consistent u) (sender : SockAddr) (d : Delivery UInt8) :
    (u.processReceive env sender d).1.running = u.running := by
  obtain ⟨accesses, hhandled⟩ := processReceive_cases env u sender d
  have hconsistent : Consistent { u with accesses := accesses } := hu.congr rfl rfl rfl
  generalize u.processReceive env sender d = out at hhandled
  cases hhandled with
  | ignored => rfl
  | syn htype => exact running_receiveSyn env _ _
  | data htype => exact running_receiveData env _ _ _
  | fin htype => exact running_receiveFin env _ _
  | ack htype => exact running_receiveAck hconsistent _ _

/-- A pass that receives. -/
theorem step_received (hu : Consistent u) {sender : SockAddr} {d : Delivery UInt8} {v : Udp}
    (hstep : u.step env (.receive sender d) = some v) :
    (v.running = true ↔ 0 ≤ ((u.loopHead env).1.processReceive env sender d).2) ∧
      (∀ b ≠ sender, Spared b (u.loopHead env).1 v) ∧
      v.accesses = u.accesses ++ u.accessesOf sender d := by
  have hside := loopHead_sendSide env u
  have haccesses : (u.loopHead env).1.accessesOf sender d = u.accessesOf sender d := by
    unfold accessesOf copyOf
    rw [hside.m_mapReceiver]
  cases step_cases hstep with
  | receive _ _ hrunning hdue =>
    have hrun : ((u.loopHead env).1.processReceive env sender d).1.running = true := by
      rw [running_processReceive env (hu.loopHead env), running_loopHead, hrunning]
    have hspared {b : SockAddr} (hb : b ≠ sender) :=
      @processReceive_spared env _ _ b (hu.loopHead env) hb d
    have hread := accesses_processReceive env (u.loopHead env).1 sender d
    rw [haccesses, hside.accesses] at hread
    unfold finish
    split
    · rename_i hneg
      exact ⟨iff_of_false Bool.false_ne_true (Int.not_le.mpr hneg), fun b hb =>
        (hspared hb).trans ⟨rfl, rfl, rfl⟩, hread⟩
    · rename_i hpos
      exact ⟨iff_of_true hrun (Int.not_lt.mp hpos), fun b hb => hspared hb, hread⟩

theorem survives_iff (hu : Consistent u) {a : Action} : Survives env u a ↔ Harmless env u a := by
  cases a with
  | send pack => exact Iff.rfl
  | wake => exact Iff.rfl
  | receive sender d =>
    have hside := loopHead_sendSide env u
    have hanswers (p : UdpPkg) : (u.loopHead env).1.Answers sender p ↔ u.Answers sender p := by
      unfold Answers
      rw [hside.m_mapReceiver]
    obtain ⟨hanswer, hnone⟩ := result_processReceive env (u.loopHead env).1 sender d
    constructor
    · intro h hrunning hdue hbytes
      obtain ⟨v, hv⟩ : ∃ v, u.step env (.receive sender d) = some v := by
        simp only [step, hrunning, hdue, if_true, Option.isSome_none, Bool.false_eq_true, if_false]
        exact ⟨_, rfl⟩
      obtain ⟨hresult, -, haccesses⟩ := step_received env hu hv
      obtain ⟨hon, -, new, hnew, hinside⟩ := h v hv
      obtain rfl := List.append_cancel_left (haccesses.symm.trans hnew)
      refine ⟨fun ha => ?_, (inside_accessesOf sender d).mp hinside hbytes⟩
      rw [← hanswer ⟨hbytes, (hanswers _).mpr ha⟩]
      exact hresult.mp hon
    · intro h v hv
      obtain ⟨hresult, hspared, haccesses⟩ := step_received env hu hv
      obtain ⟨hrunning, hdue⟩ : u.running = true ∧ (u.loopHead env).2 = none := by
        cases step_cases hv with
        | receive _ _ hrunning hdue => exact ⟨hrunning, hdue⟩
      refine ⟨hresult.mpr ?_, hspared, _, haccesses, (inside_accessesOf sender d).mpr fun hbytes =>
        (h hrunning hdue hbytes).2⟩
      by_cases ha : (received d).bytes ≠ [] ∧ (u.loopHead env).1.Answers sender (UdpPkg.decode (received d))
      · rw [hanswer ha]
        exact (h hrunning hdue ha.1).1 ((hanswers _).mp ha.2)
      · exact Int.le_of_eq (hnone ha).symm

end Step

/-- The loop survives its peers just as long as every answer is sent and all data fits. -/
theorem survives_iff_harmless (env : Env) (as : List Action) :
    Along (step env) (Survives env) Udp.new as ↔ Along (step env) (Harmless env) Udp.new as :=
  along_congr (fun hu _ hstep => hu.step env hstep) (fun hu => survives_iff env hu) consistent_new

/-- No answer can be sent. -/
def unanswering : Env := ⟨1000, fun _ => 0, fun _ => -1⟩

/-- A SYN whose answer cannot be sent ends the loop. -/
theorem survives_unanswerable :
    ∃ u, Runs.run (step unanswering) Udp.new [.receive examplePeer (craft PACKAGE_SYN 5 0 [])] = some u ∧
      u.running = false ∧ ¬ Along (step unanswering) (Survives unanswering) Udp.new
        [.receive examplePeer (craft PACKAGE_SYN 5 0 [])] := by
  have hrun : (Udp.new.step unanswering
      (.receive examplePeer (craft PACKAGE_SYN 5 0 []))).map (·.running) = some false := by
    decide +kernel
  obtain ⟨u, hu, hstopped⟩ := Option.map_eq_some_iff.mp hrun
  refine ⟨u, run_cons.mpr ⟨u, hu, run_nil u⟩, hstopped, fun hsurvives => ?_⟩
  exact absurd ((hsurvives.1 u hu).1.symm.trans hstopped) (by decide)

end Udp

end Hardcoder.UDP
