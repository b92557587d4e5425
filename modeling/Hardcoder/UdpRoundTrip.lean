import Hardcoder.UdpReassembly
import Hardcoder.UdpInputBounds

/-! The fragments of one message, handed to `dataRecv` in order. -/

namespace Hardcoder.UDP
set_option autoImplicit false

/-- The packets cover the message from `offset` on, each behind the one before it. -/
def Covers (pack : SendPack) : Nat → List UdpPkg → Prop
  | offset, [] => offset = pack.data.length
  | offset, p :: ps =>
    p.sessionid = pack.sessionid ∧ p.totallen.toNat = pack.data.length ∧ p.offset.toNat = offset ∧
      0 < p.datalen.toNat ∧ p.datalen.toNat ≤ CONST_MAXPKTSIZE ∧ p.data.length = p.datalen.toNat ∧
      p.data = (pack.data.drop offset).take p.datalen.toNat ∧ Covers pack (offset + p.datalen.toNat) ps

/-- `dataRecv` for each packet: the receiver it leaves, and what is raised for each. -/
def feed (recvRet : Nat) : Receiver → List UdpPkg → Receiver × List (Option (List UInt8))
  | rs, [] => (rs, [])
  | rs, p :: ps =>
    let out := Udp.dataRecv p recvRet rs
    let rest := feed recvRet out.rs ps
    (rest.1, out.message :: rest.2)

section RoundTrip
variable {pack : SendPack}

theorem covers_cut (fuel : Nat) : ∀ {offset : Nat}, offset ≤ pack.data.length →
    pack.data.length - offset ≤ fuel → Covers pack offset (pack.cut fuel offset) := by
  have hlen := pack.len_lt
  induction fuel with
  | zero =>
    intro offset hle hfuel
    exact Nat.le_antisymm hle (by omega)
  | succ fuel ih =>
    intro offset hle hfuel
    by_cases hlt : offset < pack.data.length
    · rw [SendPack.cut_succ hlt]
      have hpos := SendPack.datalenAt_pos hlt
      obtain ⟨hmax, hrest⟩ := pack.datalenAt_le offset
      obtain ⟨hdatalen, hdata⟩ := pack.fragmentAt_datalen offset
      rw [Covers, hdatalen]
      refine ⟨rfl, ?_, ?_, hpos, hmax, hdata, rfl, ih (by omega) (by omega)⟩
      · simp only [SendPack.fragmentAt, BitVec.toNat_ofNat]
        omega
      · simp only [SendPack.fragmentAt, BitVec.toNat_ofNat]
        omega
    · rw [SendPack.cut_of_le (Nat.not_lt.mp hlt)]
      exact Nat.le_antisymm hle (Nat.not_lt.mp hlt)

/-- From any offset on, only the last fragment raises the message, and then the sessions are
those of before. -/
theorem feed_cut {m : SortedMap Int Session} (hnone : m.get? pack.sessionid.toInt = none)
    (recvRet fuel : Nat) : ∀ {offset : Nat} {rs : Receiver}, offset < pack.data.length →
      pack.data.length - offset ≤ fuel → rs.sessionMap = holding m pack offset →
      feed recvRet rs (pack.cut fuel offset) = ({ rs with sessionMap := m },
        List.replicate ((pack.cut fuel offset).length - 1) none ++ [some pack.data]) := by
  induction fuel with
  | zero =>
    intro offset rs hlt hfuel
    omega
  | succ fuel ih =>
    intro offset rs hlt hfuel hrs
    have hpos := SendPack.datalenAt_pos hlt
    have hle := (pack.datalenAt_le offset).2
    obtain ⟨hout, hmessage⟩ := dataRecv_fragmentAt hnone hlt recvRet hrs
    rw [SendPack.cut_succ hlt, feed, hout, hmessage]
    by_cases hlast : offset + pack.datalenAt offset = pack.data.length
    · rw [SendPack.cut_of_le (Nat.le_of_eq hlast.symm), if_pos hlast, if_pos hlast]
      rfl
    · rw [if_neg hlast, if_neg hlast]
      have hmore := @ih (offset + pack.datalenAt offset) { rs with
        sessionMap := holding m pack (offset + pack.datalenAt offset) } (by omega) (by omega) rfl
      have hlength : 0 < (pack.cut fuel (offset + pack.datalenAt offset)).length := by
        obtain ⟨fuel, rfl⟩ := Nat.exists_eq_succ_of_ne_zero (n := fuel) (by omega)
        rw [SendPack.cut_succ (by omega)]
        exact Nat.succ_pos _
      have hcount : (pack.cut fuel (offset + pack.datalenAt offset)).length =
          (pack.cut fuel (offset + pack.datalenAt offset)).length - 1 + 1 := by omega
      rw [hmore, List.length_cons, Nat.add_sub_cancel, hcount, List.replicate_succ, List.cons_append,
        Nat.add_sub_cancel]

/-- Cut into fragments and put together again: the fragments cover the message, and the
receiver that had no session for it raises it once, whole, and is as it was before. -/
theorem fragments_roundTrip (hne : pack.data ≠ []) (recvRet : Nat) {rs : Receiver}
    (hnone : rs.sessionMap.get? pack.sessionid.toInt = none) :
    Covers pack 0 pack.fragments ∧
    feed recvRet rs pack.fragments =
      (rs, List.replicate (pack.fragments.length - 1) none ++ [some pack.data]) := by
  have hpos := List.length_pos_iff.mpr hne
  exact ⟨covers_cut _ (Nat.zero_le _) (Nat.le_refl _),
    feed_cut hnone recvRet _ hpos (Nat.le_refl _) rfl⟩

/-- One byte more than a fragment holds. -/
def twoFragments : SendPack :=
  ⟨examplePeer, 1, List.replicate (CONST_MAXPKTSIZE + 1) 7, by rw [List.length_replicate]; decide⟩

/-- A receiver that has a part of another message. -/
def exampleReceiver : Receiver :=
  { Udp.newReceiver examplePeer with sessionMap := SortedMap.empty.set 9 ⟨100001, [5], 2⟩ }

theorem fragments_roundTrip_two : twoFragments.fragments.length = 2 ∧
    Covers twoFragments 0 twoFragments.fragments ∧
    feed 1028 exampleReceiver twoFragments.fragments =
      (exampleReceiver, [none, some twoFragments.data]) := by
  have hlength : twoFragments.fragments.length = 2 := by decide +kernel
  have hne : twoFragments.data ≠ [] := by simp [twoFragments]
  have hraised (x : Option (List UInt8)) : List.replicate (2 - 1) none ++ [x] = [none, x] := rfl
  have h := @fragments_roundTrip twoFragments hne 1028 exampleReceiver rfl
  rw [hlength, hraised] at h
  exact ⟨hlength, h⟩

end RoundTrip

end Hardcoder.UDP
