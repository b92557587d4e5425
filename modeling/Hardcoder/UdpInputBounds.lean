import Hardcoder.UdpLoop

/-! What a datagram makes the receiver read and write: inside the received bytes and
inside the session's buffer exactly when it is no longer than it says, and its data
fits behind what the buffer holds. -/

namespace Hardcoder.UDP
open Stream Runs Udp
set_option autoImplicit false

def Access.InBounds : Access → Prop
  | .crc pkgLen recvRet => pkgLen ≤ recvRet
  | .copy pkgLen recvRet writeEnd alloc =>
    pkgLen ≤ recvRet ∧ pkgLen ≤ UdpPkg.size ∧ writeEnd ≤ alloc

/-- The packet is a correct one and the next in sequence. -/
def Receiver.Accepts (rs : Receiver) (p : UdpPkg) : Prop :=
  p.crc = p.datacrc ∧ p.type = PACKAGE_DATA ∧ (rs.status = .OPENING ∨ rs.status = .OPEN) ∧
    p.seq = rs.expectedSeq ∧ ¬ p.seq < rs.expectedSeq - BitVec.ofNat 32 CONST_WINDOW

namespace Udp

/-- No session's fill count exceeds the size of its buffer. -/
def Filled (u : Udp) : Prop :=
  ∀ addr rs, u.m_mapReceiver.get? addr = some rs →
    ∀ sid s, rs.sessionMap.get? sid = some s → s.first.toNat ≤ s.alloc

/-- Every access so far was in bounds, and the next one will start in bounds. -/
structure Safe (u : Udp) : Prop where
  accesses : ∀ x ∈ u.accesses, x.InBounds
  filled : u.Filled

/-- The datagram holds what its header declares, and a fragment that is accepted fits
into its session's buffer. -/
def Fits (u : Udp) (sender : SockAddr) (d : Delivery UInt8) : Prop :=
  d.bytes = [] ∨ ((UdpPkg.decode d).pkgLen ≤ d.bytes.length ∧
    ∀ rs s, u.m_mapReceiver.get? sender = some rs → rs.Accepts (UdpPkg.decode d) →
      sessionOf (UdpPkg.decode d) rs = some s →
        s.first.toNat + (UdpPkg.decode d).datalen.toNat ≤ s.alloc)

def Contained (u : Udp) : Action → Prop
  | .receive sender d => u.Fits sender (received d)
  | _ => True

section Receive
variable (env : Env) (u : Udp) (sender : SockAddr) {p : UdpPkg}

theorem sendAck_sendSide (p : UdpPkg) : SendSide u (u.sendAck env sender p).1 :=
  sendPackage_sendSide env u sender _

theorem sessionOf_offset {rs : Receiver} {s : Session} (h : sessionOf p rs = some s) :
    p.offset = s.first := by
  unfold sessionOf at h
  split at h
  · split at h
    · cases h
    · rename_i hzero
      obtain rfl := Option.some.inj h
      exact not_not.mp hzero
  · split at h
    · cases h
    · rename_i heq
      obtain rfl := Option.some.inj h
      exact not_not.mp heq

theorem dataRecv_filled {rs : Receiver} {recvRet : Nat}
    (hrs : ∀ sid s, rs.sessionMap.get? sid = some s → s.first.toNat ≤ s.alloc)
    (hfit : ∀ s, sessionOf p rs = some s → s.first.toNat + p.datalen.toNat ≤ s.alloc) :
    ∀ sid s, (dataRecv p recvRet rs).rs.sessionMap.get? sid = some s → s.first.toNat ≤ s.alloc := by
  unfold dataRecv
  cases hsession : sessionOf p rs with
  | none => exact hrs
  | some s =>
    have hs := hfit s hsession
    have hoffset := sessionOf_offset hsession
    dsimp only
    split
    · intro sid t ht
      exact hrs sid t (SortedMap.get?_erase ht).2
    · intro sid t ht
      by_cases hsid : sid = p.sessionid.toInt
      · subst hsid
        rw [SortedMap.get?_set_self] at ht
        obtain rfl := Option.some.inj ht
        have hmod := Nat.mod_le (s.first.toNat + p.datalen.toNat) (2 ^ 32)
        have hdatalen : p.datalen.toNat % 2 ^ 32 = p.datalen.toNat := by
          have := p.datalen.isLt
          omega
        simp only [hoffset, BitVec.toNat_add, BitVec.toNat_setWidth, hdatalen]
        omega
      · exact hrs sid t (SortedMap.get?_set_of_ne _ hsid _ ▸ ht)

theorem dataRecv_access (rs : Receiver) (recvRet : Nat) :
    (dataRecv p recvRet rs).access = (sessionOf p rs).map fun s =>
      .copy p.pkgLen recvRet (s.first.toNat + p.datalen.toNat) s.alloc := by
  unfold dataRecv
  cases sessionOf p rs with
  | none => rfl
  | some s =>
    dsimp only
    split <;> rfl

theorem Filled.of_sendSide {u u' : Udp} (h : SendSide u u') (hu : u.Filled) : u'.Filled := by
  unfold Filled
  rw [h.m_mapReceiver]
  exact hu

theorem Filled.setReceiver {u : Udp} (hu : u.Filled) {rs : Receiver}
    (hrs : ∀ sid s, rs.sessionMap.get? sid = some s → s.first.toNat ≤ s.alloc) :
    (u.setReceiver sender rs).Filled := by
  intro addr rs' h
  by_cases haddr : addr = sender
  · subst haddr
    rw [Udp.setReceiver, SortedMap.get?_set_self] at h
    obtain rfl := Option.some.inj h
    exact hrs
  · exact hu addr rs' (SortedMap.get?_set_of_ne _ haddr _ ▸ h)

theorem Filled.cleanReceiver {u : Udp} (hu : u.Filled) (rs : Receiver) :
    (u.cleanReceiver rs).Filled :=
  fun addr rs' h => hu addr rs' (SortedMap.get?_erase h).2

/-- The accesses a handler adds are in bounds exactly under `C`, and then it overfills
no buffer. -/
structure Checks (u u' : Udp) (C : Prop) : Prop where
  filled : u.Filled → C → u'.Filled
  accesses : ∃ new, u'.accesses = u.accesses ++ new ∧ ((∀ x ∈ new, x.InBounds) ↔ C)

theorem Checks.of_unchanged {u u' : Udp} {C : Prop} (hfilled : u.Filled → u'.Filled)
    (haccesses : u'.accesses = u.accesses) (hC : C) : Checks u u' C :=
  ⟨fun hu _ => hfilled hu, [], by rw [haccesses, List.append_nil], by simp [hC]⟩

theorem Checks.then_send {u v w : Udp} {C : Prop} (h : Checks u v C) (hsend : SendSide v w) :
    Checks u w C := by
  obtain ⟨new, hnew, hC⟩ := h.accesses
  exact ⟨fun hu hc => .of_sendSide hsend (h.filled hu hc), new, by rw [hsend.accesses, hnew], hC⟩

theorem receiveSyn_checks : Checks u (u.receiveSyn env sender p).1 True := by
  have hnew : ∀ sid s, (newReceiver sender).sessionMap.get? sid = some s →
      s.first.toNat ≤ s.alloc := fun sid s h => by cases h
  unfold receiveSyn
  cases hrs : u.m_mapReceiver.get? sender with
  | none =>
    refine Checks.then_send ?_ (sendAck_sendSide env _ sender _)
    exact .of_unchanged (fun hu => .setReceiver sender hu hnew) rfl trivial
  | some rs =>
    dsimp only
    by_cases hstatus : rs.status ≠ Status.OPENING
    · rw [if_pos hstatus]
      refine Checks.then_send ?_ (sendAck_sendSide env _ sender _)
      exact .of_unchanged (fun hu => .setReceiver sender (hu.cleanReceiver rs) hnew) rfl trivial
    · rw [if_neg hstatus]
      refine Checks.then_send ?_ (sendAck_sendSide env _ sender _)
      exact .of_unchanged (fun hu => .setReceiver sender hu (hu sender rs hrs)) rfl trivial

theorem receiveFin_checks : Checks u (u.receiveFin env sender p).1 True := by
  have hsend (p : UdpPkg) : Checks u (u.sendAck env sender p).1 True :=
    (Checks.of_unchanged id rfl trivial).then_send (sendAck_sendSide env u sender p)
  unfold receiveFin
  split
  · exact hsend p
  · split
    · exact .of_unchanged id rfl trivial
    · have h := hsend { p with datalen := 0 }
      obtain ⟨new, hnew, hC⟩ := h.accesses
      exact ⟨fun hu hc => (h.filled hu hc).cleanReceiver _, new, hnew, hC⟩

theorem receiveData_checks {recvRet : Nat} (hcrc : p.crc = p.datacrc)
    (htype : p.type = PACKAGE_DATA) (hsize : recvRet ≤ UdpPkg.size) :
    Checks u (u.receiveData env sender recvRet p).1
      (∀ rs s, u.m_mapReceiver.get? sender = some rs → rs.Accepts p → sessionOf p rs = some s →
        p.pkgLen ≤ recvRet ∧ s.first.toNat + p.datalen.toNat ≤ s.alloc) := by
  unfold receiveData
  cases hrs : u.m_mapReceiver.get? sender with
  | none => exact .of_unchanged id rfl (by simp)
  | some rs =>
    have hquiet (hreject : ¬ rs.Accepts p) : ∀ rs' s, some rs = some rs' → rs'.Accepts p →
        sessionOf p rs' = some s →
          p.pkgLen ≤ recvRet ∧ s.first.toNat + p.datalen.toNat ≤ s.alloc := by
      intro rs' s hrs' haccept
      exact absurd (Option.some.inj hrs' ▸ haccept) hreject
    dsimp only
    split
    · rename_i hstatus
      exact .of_unchanged id rfl (hquiet fun h => h.2.2.1.elim hstatus.1 hstatus.2)
    · split
      · rename_i hwindow
        refine .of_unchanged id rfl (hquiet fun h => ?_)
        rcases hwindow with hlow | hhigh
        · exact h.2.2.2.2 hlow
        · exact absurd (h.2.2.2.1 ▸ hhigh) (BitVec.lt_irrefl _)
      · rename_i hstatus hwindow
        refine Checks.then_send ?_ (sendAck_sendSide env _ sender _)
        split
        · rename_i hseq
          have haccept : rs.Accepts p := by
            refine ⟨hcrc, htype, ?_, hseq, fun hlow => hwindow (.inl hlow)⟩
            by_contra hno
            exact hstatus ⟨fun h => hno (.inl h), fun h => hno (.inr h)⟩
          have hsession : sessionOf p { rs with status := .OPEN, expectedSeq := p.seq + 1 } =
              sessionOf p rs := rfl
          constructor
          · intro hu hC
            have hfilled := @dataRecv_filled p
              { rs with status := .OPEN, expectedSeq := p.seq + 1 } recvRet (hu sender rs hrs)
              fun s hs => (hC rs s rfl haccept hs).2
            exact Filled.setReceiver sender hu hfilled
          · refine ⟨_, rfl, ?_⟩
            rw [dataRecv_access, hsession]
            cases hs : sessionOf p rs with
            | none =>
              refine iff_of_true (by simp) fun rs' s hrs' _ hs' => ?_
              rw [← Option.some.inj hrs', hs] at hs'
              cases hs'
            | some s =>
              simp only [Option.map_some, Option.toList_some, List.mem_singleton, forall_eq,
                Access.InBounds]
              constructor
              · intro h rs' s' hrs' _ hs'
                rw [← Option.some.inj hrs', hs] at hs'
                exact Option.some.inj hs' ▸ ⟨h.1, h.2.2⟩
              · intro h
                obtain ⟨hlen, hfit⟩ := h rs s rfl haccept hs
                exact ⟨hlen, hlen.trans hsize, hfit⟩
        · rename_i hseq
          exact .of_unchanged id rfl (hquiet fun h => hseq h.2.2.2.1)

theorem processReceive_checks (d : Delivery UInt8) :
    Checks u (u.processReceive env sender d).1 (u.Fits sender (received d)) := by
  have hsize : (received d).bytes.length ≤ UdpPkg.size := by
    rw [received, List.length_take]
    exact Nat.min_le_left _ _
  unfold processReceive
  change Checks u (if (received d).bytes.length = 0 then _ else _ : Udp × Int).1 _
  split
  · rename_i hnil
    exact .of_unchanged id rfl (.inl (List.length_eq_zero_iff.mp hnil))
  · rename_i hne
    have hbytes : (received d).bytes ≠ [] := fun h => hne (List.length_eq_zero_iff.mpr h)
    -- the checksum is taken first, over the length the packet declares
    have hcrc {v : Udp} {C : Prop} (h : Checks { u with accesses := u.accesses ++
          [.crc (UdpPkg.decode (received d)).pkgLen (received d).bytes.length] } v C)
        (hC : u.Fits sender (received d) ↔
          (UdpPkg.decode (received d)).pkgLen ≤ (received d).bytes.length ∧ C) :
        Checks u v (u.Fits sender (received d)) := by
      obtain ⟨new, hnew, hiff⟩ := h.accesses
      refine ⟨fun hu hfits => h.filled hu (hC.mp hfits).2,
        .crc (UdpPkg.decode (received d)).pkgLen (received d).bytes.length :: new, ?_, ?_⟩
      · rw [hnew, List.append_assoc]
        rfl
      · rw [List.forall_mem_cons, hiff, hC]
        rfl
    have hquiet {v : Udp} (h : Checks { u with accesses := u.accesses ++
          [.crc (UdpPkg.decode (received d)).pkgLen (received d).bytes.length] } v True)
        (hno : ∀ rs : Receiver, ¬ rs.Accepts (UdpPkg.decode (received d))) :
        Checks u v (u.Fits sender (received d)) := by
      refine hcrc h ?_
      rw [Fits, or_iff_right hbytes, and_true, and_iff_left]
      exact fun rs _ _ haccept => absurd haccept (hno rs)
    dsimp only
    split
    · rename_i hbad
      exact hquiet (.of_unchanged id rfl trivial) fun rs h => hbad h.1
    · rename_i hgood
      split
      · rename_i htype
        refine hquiet (receiveSyn_checks env _ sender) fun rs h => ?_
        exact absurd (htype.symm.trans h.2.1) (by decide)
      · split
        · rename_i htype
          refine hcrc (receiveData_checks env _ sender (not_not.mp hgood) htype hsize) ?_
          rw [Fits, or_iff_right hbytes]
          constructor
          · exact fun h => ⟨h.1, fun rs s hrs hacc hs => ⟨h.1, h.2 rs s hrs hacc hs⟩⟩
          · exact fun h => ⟨h.1, fun rs s hrs hacc hs => (h.2 rs s hrs hacc hs).2⟩
        · rename_i hdata
          have hno : ∀ rs, ¬ Receiver.Accepts rs (UdpPkg.decode (received d)) :=
            fun rs h => hdata h.2.1
          split
          · exact hquiet (receiveFin_checks env _ sender) hno
          · split
            · exact hquiet ((Checks.of_unchanged id rfl trivial).then_send
                (receiveAck_sendSide _ sender _)) hno
            · exact hquiet (.of_unchanged id rfl trivial) hno

end Receive

section Runs
variable (env : Env)

theorem Checks.of_sendSide {u u' : Udp} {C : Prop} (h : SendSide u u') (hC : C) :
    Checks u u' C :=
  .of_unchanged (.of_sendSide h) h.accesses hC

theorem step_checks {u u' : Udp} {a : Action} (h : u.step env a = some u') :
    Checks u u' (u.Contained a) := by
  have hhead := loopHead_sendSide env u
  cases step_cases h with
  | send pack hroom => exact .of_unchanged id rfl trivial
  | idle hrunning hdue => exact .of_sendSide hhead trivial
  | fire e hrunning hdue => exact .of_sendSide (hhead.trans (fire_sendSide env _ e)) trivial
  | receive sender d hrunning hdue =>
    have hcheck := (processReceive_checks env (u.loopHead env).1 sender d).then_send
      (finish_sendSide _)
    have hfits : (u.loopHead env).1.Fits sender (received d) ↔ u.Contained (.receive sender d) := by
      rw [Contained, Fits, Fits, hhead.m_mapReceiver]
    obtain ⟨new, hnew, hiff⟩ := hcheck.accesses
    refine ⟨fun hu hC => hcheck.filled (.of_sendSide hhead hu) (hfits.mpr hC), new, ?_,
      hiff.trans hfits⟩
    rw [hnew, hhead.accesses]

theorem accesses_grow {as : List Action} :
    ∀ {u u' : Udp}, run (step env) u as = some u' → u.accesses <+: u'.accesses := by
  induction as with
  | nil =>
    intro u u' h
    obtain rfl := Option.some.inj h
    exact List.prefix_rfl
  | cons a as ih =>
    intro u u' h
    obtain ⟨t, ht, h⟩ := run_cons.mp h
    obtain ⟨new, hnew, -⟩ := (step_checks env ht).accesses
    exact (hnew ▸ List.prefix_append _ _ : u.accesses <+: t.accesses).trans (ih h)

theorem safe_iff_contained_from {as : List Action} :
    ∀ {u u' : Udp}, u.Safe → run (step env) u as = some u' →
      (u'.Safe ↔ Along (step env) Contained u as) := by
  induction as with
  | nil =>
    intro u u' hu h
    obtain rfl := Option.some.inj h
    exact iff_of_true hu trivial
  | cons a as ih =>
    intro u u' hu h
    obtain ⟨t, ht, h⟩ := run_cons.mp h
    have hcheck := step_checks env ht
    obtain ⟨new, hnew, hiff⟩ := hcheck.accesses
    have hsafe (hC : u.Contained a) : t.Safe := by
      refine ⟨fun x hx => ?_, hcheck.filled hu.filled hC⟩
      rw [hnew, List.mem_append] at hx
      exact hx.elim (hu.accesses x) (hiff.mpr hC x)
    constructor
    · intro hu'
      have hC : u.Contained a := hiff.mp fun x hx =>
        hu'.accesses x ((accesses_grow env h).subset (hnew ▸ List.mem_append_right _ hx))
      refine ⟨hC, fun t' ht' => ?_⟩
      obtain rfl := Option.some.inj (ht.symm.trans ht')
      exact (ih (hsafe hC) h).mp hu'
    · exact fun halong => (ih (hsafe halong.1) h).mpr (halong.2 t ht)

/-- A run stays in bounds exactly when every datagram it receives is contained. -/
theorem inputSafety_iff_contained {as : List Action} {u : Udp}
    (h : run (step env) Udp.new as = some u) :
    u.Safe ↔ Along (step env) Contained Udp.new as :=
  safe_iff_contained_from env ⟨fun _ hx => absurd hx List.not_mem_nil, fun _ _ hrs => nomatch hrs⟩ h

end Runs

end Udp

/-- Timers that never come due. -/
def exampleEnv : Env := ⟨1000, fun _ => 0, fun _ => 28⟩

def examplePeer : SockAddr := ⟨2, 2⟩

theorem length_oneByte : ([7] : List UInt8).length < 2 ^ 31 := by decide

/-- A datagram with a correct checksum and these fields. -/
def craft (type : BitVec 8) (seq totallen : BitVec 32) (data : List UInt8) : Delivery UInt8 :=
  let p := { UdpPkg.new with
    totallen := totallen, datalen := BitVec.ofNat 16 data.length, data := data }
  ⟨(p.stamp type seq).bytes, fun _ => 0⟩

theorem Udp.inputSafety_iff_contained_oneByte : ∃ u,
    run (step exampleEnv) Udp.new [.receive examplePeer (craft PACKAGE_SYN 5 0 []),
      .receive examplePeer (craft PACKAGE_DATA 6 1 [7])] = some u ∧
    (u.Safe ↔ Along (step exampleEnv) Contained Udp.new
      [.receive examplePeer (craft PACKAGE_SYN 5 0 []),
        .receive examplePeer (craft PACKAGE_DATA 6 1 [7])]) := by
  have hrun : (run (step exampleEnv) Udp.new [.receive examplePeer (craft PACKAGE_SYN 5 0 []),
      .receive examplePeer (craft PACKAGE_DATA 6 1 [7])]).isSome := by decide +kernel
  obtain ⟨u, hu⟩ := Option.isSome_iff_exists.mp hrun
  exact ⟨u, hu, inputSafety_iff_contained exampleEnv hu⟩

/-- Two bytes of data in a session announced with one: the copy writes behind the buffer. -/
theorem Udp.inputSafety_write_behind_buffer : ∃ u,
    run (step exampleEnv) Udp.new [.receive examplePeer (craft PACKAGE_SYN 5 0 []),
      .receive examplePeer (craft PACKAGE_DATA 6 1 [7, 8])] = some u ∧
    u.accesses = [.crc 28 28, .crc 30 30, .copy 30 30 2 1] ∧ ¬ u.Safe := by
  have hrun : (run (step exampleEnv) Udp.new [.receive examplePeer (craft PACKAGE_SYN 5 0 []),
      .receive examplePeer (craft PACKAGE_DATA 6 1 [7, 8])]).map (·.accesses) =
        some [.crc 28 28, .crc 30 30, .copy 30 30 2 1] := by decide +kernel
  obtain ⟨u, hu, haccesses⟩ := Option.map_eq_some_iff.mp hrun
  refine ⟨u, hu, haccesses, fun hsafe => ?_⟩
  have hbounds := hsafe.accesses (.copy 30 30 2 1) (by simp [haccesses])
  exact absurd hbounds.2.2 (by decide)

end Hardcoder.UDP
