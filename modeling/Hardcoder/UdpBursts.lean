import Hardcoder.UdpInputBounds
import Hardcoder.Lib.Crc

/-! Datagrams that the way has changed in up to 32 consecutive bits: the checksum of
`sendPackage` never fits them. -/

namespace Hardcoder
open Stream LittleEndian
set_option autoImplicit false

/-! ### The table-driven loop is the division -/

/-- 0xEDB88320 -/
def crc32Poly : BitVec 32 := 0xEDB88320

theorem crc32Entry_eq (i : BitVec 32) : crc32Entry i = Crc.entry crc32Poly i := by
  have hlow (c : BitVec 32) : c &&& 1 ≠ 0 ↔ c.getLsbD 0 = true := by
    have hone : c &&& 1 = (BitVec.ofBool (c.getLsbD 0)).setWidth 32 :=
      BitVec.and_one_eq_setWidth_ofBool_getLsbD
    rw [hone]
    cases c.getLsbD 0 <;> decide
  have hshift (c : BitVec 32) : (if c &&& 1 ≠ 0 then (c >>> 1) ^^^ 0xEDB88320 else c >>> 1) =
      Crc.shift crc32Poly c := by
    unfold Crc.shift
    simp only [hlow]
    rfl
  unfold crc32Entry
  simp only [hshift]
  rfl

/-- The bits of the bytes, the lowest of each first. -/
def bitString (bs : List UInt8) : List Bool := (bs.map UInt8.toBitVec).flatMap Crc.bitsOf

theorem getCrc32_eq (data : List UInt8) :
    getCrc32 data = Crc.divide crc32Poly 0xffffffff (bitString data) ^^^ 0xFFFFFFFF := by
  have hstep (c : BitVec 32) (b : UInt8) : (c >>> 8) ^^^ crc32Entry ((c &&& 0xFF) ^^^ b.toBitVec.setWidth 32) =
      Crc.tableStep crc32Poly c b.toBitVec := by
    rw [crc32Entry_eq]
    rfl
  rw [getCrc32, bitString, ← Crc.foldl_tableStep (by decide), List.foldl_map]
  simp only [hstep]

/-! ### Errors in the bytes that are summed -/

/-- A bit of the bytes, the lowest of each first. -/
def bitAt (bs : List UInt8) (i : Nat) : Bool := ((bs[i / 8]?).getD 0).toBitVec.getLsbD (i % 8)

theorem length_bitString (bs : List UInt8) : (bitString bs).length = 8 * bs.length := by
  induction bs with
  | nil => rfl
  | cons b bs ih =>
    have hcons : bitString (b :: bs) = Crc.bitsOf b.toBitVec ++ bitString bs := rfl
    rw [hcons, List.length_append, Crc.length_bitsOf, ih, List.length_cons]
    omega

theorem getElem?_bitString {bs : List UInt8} {i : Nat} (h : i < 8 * bs.length) :
    (bitString bs)[i]? = some (bitAt bs i) := by
  induction bs generalizing i with
  | nil => exact absurd h (Nat.not_lt_zero i)
  | cons b bs ih =>
    have hcons : bitString (b :: bs) = Crc.bitsOf b.toBitVec ++ bitString bs := rfl
    rw [hcons]
    by_cases hi : i < 8
    · have hlt : i < (Crc.bitsOf b.toBitVec).length := by rwa [Crc.length_bitsOf]
      have hdiv : i / 8 = 0 := Nat.div_eq_of_lt hi
      rw [List.getElem?_append_left hlt, bitAt, hdiv, Nat.mod_eq_of_lt hi]
      simp [Crc.bitsOf, hi]
    · have hle : (Crc.bitsOf b.toBitVec).length ≤ i := by
        rw [Crc.length_bitsOf]
        exact Nat.not_lt.mp hi
      have hrest : i - 8 < 8 * bs.length := by
        rw [List.length_cons] at h
        omega
      have hdiv : i / 8 = (i - 8) / 8 + 1 := by omega
      have hmod : i % 8 = (i - 8) % 8 := by omega
      rw [List.getElem?_append_right hle, Crc.length_bitsOf, ih hrest, bitAt, bitAt, hdiv, hmod,
        List.getElem?_cons_succ]

/-- Two strings of bytes with errors between them in no more than 32 bits in a row. -/
theorem getCrc32_ne {xs ys : List UInt8} {first : Nat} (hlen : xs.length = ys.length)
    (hwindow : ∀ i, bitAt xs i ≠ bitAt ys i → first ≤ i ∧ i < first + 32)
    (hchanged : ∃ i < 8 * xs.length, bitAt xs i ≠ bitAt ys i) : getCrc32 xs ≠ getCrc32 ys := by
  have hbits : (bitString xs).length = (bitString ys).length := by
    rw [length_bitString, length_bitString, hlen]
  have hne : bitString xs ≠ bitString ys := by
    obtain ⟨i, hi, hdiff⟩ := hchanged
    intro heq
    have hbit := getElem?_bitString hi
    rw [heq, getElem?_bitString (hlen ▸ hi)] at hbit
    exact hdiff (Option.some.inj hbit).symm
  have hbitWindow : ∀ i, (bitString xs)[i]? ≠ (bitString ys)[i]? → first ≤ i ∧ i < first + 32 := by
    intro i hdiff
    by_cases hi : i < 8 * xs.length
    · rw [getElem?_bitString hi, getElem?_bitString (hlen ▸ hi)] at hdiff
      exact hwindow i fun heq => hdiff (congrArg some heq)
    · have hbeyond : (bitString xs).length ≤ i := by
        rw [length_bitString]
        exact Nat.not_lt.mp hi
      rw [List.getElem?_eq_none hbeyond, List.getElem?_eq_none (hbits ▸ hbeyond)] at hdiff
      exact absurd rfl hdiff
  have hpoly : crc32Poly.msb = true := by decide
  have hdivide : Crc.divide crc32Poly 0xffffffff (bitString xs) ≠
      Crc.divide crc32Poly 0xffffffff (bitString ys) :=
    Crc.divide_ne_of_window hpoly hbits hne hbitWindow
  rw [getCrc32_eq, getCrc32_eq]
  exact fun h => hdivide ((BitVec.xor_left_inj _).mp h)

namespace UDP
open Udp

/-- The way has changed some bits of a datagram, within 32 in a row and outside the fields
`datalen` and `datacrc`. -/
structure Burst (sent received : List UInt8) : Prop where
  length : received.length = sent.length
  window : ∃ first, ∀ i, bitAt received i ≠ bitAt sent i → first ≤ i ∧ i < first + 32
  changed : ∃ i, bitAt received i ≠ bitAt sent i
  spared : ∀ i, 16 ≤ i → i < 64 → bitAt received i = bitAt sent i

theorem bitAt_of_beyond {bs : List UInt8} {i : Nat} (h : 8 * bs.length ≤ i) : bitAt bs i = false := by
  have hnone : bs[i / 8]? = none := List.getElem?_eq_none (by omega)
  rw [bitAt, hnone]
  exact BitVec.getLsbD_zero

theorem Burst.of_inside {sent received : List UInt8} (first : Nat)
    (hlength : received.length = sent.length)
    (hwindow : ∀ i < 8 * sent.length, bitAt received i ≠ bitAt sent i →
      (first ≤ i ∧ i < first + 32) ∧ ¬ (16 ≤ i ∧ i < 64))
    (hchanged : ∃ i, bitAt received i ≠ bitAt sent i) : Burst sent received := by
  have hdiff (i : Nat) (hi : bitAt received i ≠ bitAt sent i) :
      (first ≤ i ∧ i < first + 32) ∧ ¬ (16 ≤ i ∧ i < 64) := by
    refine hwindow i ?_ hi
    by_contra hbeyond
    have hle : 8 * sent.length ≤ i := Nat.not_lt.mp hbeyond
    exact hi (by rw [bitAt_of_beyond hle, bitAt_of_beyond (hlength ▸ hle)])
  refine ⟨hlength, ⟨first, fun i hi => (hdiff i hi).1⟩, hchanged, fun i hlo hhi => ?_⟩
  by_contra hne
  exact (hdiff i hne).2 ⟨hlo, hhi⟩

/-- The bytes of a packet with `datacrc` cleared. -/
def clearCrc (bs : List UInt8) : List UInt8 := bs.take 4 ++ (List.replicate 4 0 ++ bs.drop 8)

theorem length_clearCrc {bs : List UInt8} (h : 8 ≤ bs.length) :
    (clearCrc bs).length = bs.length := by
  simp only [clearCrc, List.length_append, List.length_take, List.length_replicate, List.length_drop]
  omega

theorem bitAt_clearCrc {bs : List UInt8} (h : 8 ≤ bs.length) (i : Nat) :
    bitAt (clearCrc bs) i = if 32 ≤ i ∧ i < 64 then false else bitAt bs i := by
  have htake : (bs.take 4).length = 4 := by
    rw [List.length_take]
    omega
  rw [bitAt, clearCrc]
  by_cases hlow : i / 8 < 4
  · have hbefore : ¬ (32 ≤ i ∧ i < 64) := by omega
    rw [List.getElem?_append_left (by rw [htake]; exact hlow), List.getElem?_take, if_pos hlow,
      if_neg hbefore, bitAt]
  · rw [List.getElem?_append_right (by omega), htake]
    by_cases hfield : i / 8 < 8
    · have hin : 32 ≤ i ∧ i < 64 := by omega
      have hzero : (List.replicate 4 (0 : UInt8) ++ bs.drop 8)[i / 8 - 4]? = some 0 := by
        rw [List.getElem?_append_left (by rw [List.length_replicate]; omega), List.getElem?_replicate,
          if_pos (by omega)]
      rw [hzero, if_pos hin]
      exact BitVec.getLsbD_zero
    · have hbehind : ¬ (32 ≤ i ∧ i < 64) := by omega
      have hindex : 8 + (i / 8 - 4 - 4) = i / 8 := by omega
      rw [List.getElem?_append_right (by rw [List.length_replicate]; omega), List.length_replicate,
        List.getElem?_drop, hindex, if_neg hbehind, bitAt]

theorem bytes_decode {bs : List UInt8} {beyond : Nat → UInt8}
    (h : bs.length = (UdpPkg.decode ⟨bs, beyond⟩).pkgLen) :
    { UdpPkg.decode ⟨bs, beyond⟩ with datacrc := 0 }.bytes = clearCrc bs := by
  have h28 : UdpPkg.headerSize = 28 := rfl
  have hlen : 28 ≤ bs.length := by
    rw [h, UdpPkg.pkgLen]
    exact Nat.le_add_right _ _
  have hfield (off w : Nat) (hw : off + w ≤ 28) :
      word w (field off w (bs ++ List.replicate UdpPkg.headerSize 0)) = (bs.drop off).take w := by
    have hin : off + w ≤ bs.length := Nat.le_trans hw hlen
    rw [field_append off w bs _ hin, word_field hin]
  have hdata : ((UdpPkg.decode ⟨bs, beyond⟩).data).take (UdpPkg.decode ⟨bs, beyond⟩).datalen.toNat =
      bs.drop 28 := by
    have hread := (Delivery.mk bs beyond).read_within (Nat.le_of_eq h.symm)
    have hrest : (bs.drop 28).length = (UdpPkg.decode ⟨bs, beyond⟩).datalen.toNat := by
      rw [List.length_drop, h, UdpPkg.pkgLen, h28, Nat.add_sub_cancel_left]
    have hdrop : (UdpPkg.decode ⟨bs, beyond⟩).data = _ := hread
    rw [hdrop, List.take_take, Nat.min_self, h28, ← hrest, List.take_length]
  have hcut (n m : Nat) : (bs.drop n).take m ++ bs.drop (n + m) = bs.drop n := by
    rw [← List.drop_drop, List.take_append_drop]
  have hzero : word 4 0 = List.replicate 4 (0 : UInt8) := rfl
  have hthree : bs.take 4 = (bs.drop 0).take 1 ++ ((bs.drop 1).take 1 ++ (bs.drop 2).take 2) := by
    have hlast : bs.take (2 + 2) = bs.take 2 ++ (bs.drop 2).take 2 := List.take_add
    have hfirst : bs.take (1 + 1) = bs.take 1 ++ (bs.drop 1).take 1 := List.take_add
    rw [hlast, hfirst, List.drop_zero, List.append_assoc]
  rw [clearCrc, UdpPkg.bytes, UdpPkg.header, hdata, hthree, ← hzero, ← hcut 8 4, ← hcut 12 4,
    ← hcut 16 4, ← hcut 20 8]
  simp only [UdpPkg.decode, hfield, Nat.reduceAdd, Nat.reduceLeDiff, List.append_assoc]

/-- The checksum does not depend on what lies behind the data. -/
theorem crc_take (p : UdpPkg) : { p with data := p.data.take p.datalen.toNat }.crc = p.crc := by
  rw [UdpPkg.crc, UdpPkg.crc, UdpPkg.bytes, UdpPkg.bytes, List.take_take, Nat.min_self]
  rfl

/-- A field is read from its own bits only. -/
theorem field_congr {xs ys : List UInt8} {off w : Nat} (hxs : off + w ≤ xs.length)
    (hys : off + w ≤ ys.length) (h : ∀ i, 8 * off ≤ i → i < 8 * (off + w) → bitAt xs i = bitAt ys i) :
    field off w xs = field off w ys := by
  have hbytes : (xs.drop off).take w = (ys.drop off).take w := by
    apply List.ext_getElem?
    intro k
    rw [List.getElem?_take, List.getElem?_take, List.getElem?_drop, List.getElem?_drop]
    split
    · rename_i hk
      have hx : off + k < xs.length := by omega
      have hy : off + k < ys.length := by omega
      have hbyte : xs[off + k] = ys[off + k] := by
        apply UInt8.toBitVec_inj.mp
        apply BitVec.eq_of_getLsbD_eq
        intro j hj
        have hbit := h (8 * (off + k) + j) (by omega) (by omega)
        have hdiv : (8 * (off + k) + j) / 8 = off + k := by omega
        have hmod : (8 * (off + k) + j) % 8 = j := by omega
        rw [bitAt, bitAt, hdiv, hmod, List.getElem?_eq_getElem hx, List.getElem?_eq_getElem hy] at hbit
        exact hbit
      rw [List.getElem?_eq_getElem hx, List.getElem?_eq_getElem hy, hbyte]
    · rfl
  rw [field, field, hbytes]

theorem crc_ne_of_burst {bs received : List UInt8} {beyond beyond' : Nat → UInt8}
    (hbs : bs.length = (UdpPkg.decode ⟨bs, beyond⟩).pkgLen)
    (hcrc : (UdpPkg.decode ⟨bs, beyond⟩).crc = (UdpPkg.decode ⟨bs, beyond⟩).datacrc)
    (h : Burst bs received) :
    (UdpPkg.decode ⟨received, beyond'⟩).crc ≠ (UdpPkg.decode ⟨received, beyond'⟩).datacrc := by
  have hlen : 28 ≤ bs.length := by
    rw [hbs, UdpPkg.pkgLen]
    exact Nat.le_add_right _ _
  have hlen' : 28 ≤ received.length := by rwa [h.length]
  have hfield (off w : Nat) (hoff : 2 ≤ off) (hw : off + w ≤ 8) :
      field off w (received ++ List.replicate UdpPkg.headerSize 0) =
        field off w (bs ++ List.replicate UdpPkg.headerSize 0) := by
    rw [field_append off w received _ (by omega), field_append off w bs _ (by omega)]
    exact field_congr (by omega) (by omega) fun i hi hi' => h.spared i (by omega) (by omega)
  have hdatalen : (UdpPkg.decode ⟨received, beyond'⟩).datalen = (UdpPkg.decode ⟨bs, beyond⟩).datalen :=
    hfield 2 2 (by decide) (by decide)
  have hdatacrc : (UdpPkg.decode ⟨received, beyond'⟩).datacrc = (UdpPkg.decode ⟨bs, beyond⟩).datacrc :=
    hfield 4 4 (by decide) (by decide)
  have hreceived : received.length = (UdpPkg.decode ⟨received, beyond'⟩).pkgLen := by
    rw [h.length, hbs, UdpPkg.pkgLen, UdpPkg.pkgLen, hdatalen]
  have h8 : 8 ≤ bs.length := by omega
  have h8' : 8 ≤ received.length := by omega
  obtain ⟨first, hwindow⟩ := h.window
  obtain ⟨k, hk⟩ := h.changed
  have hclear (i : Nat) : bitAt (clearCrc received) i ≠ bitAt (clearCrc bs) i ↔
      bitAt received i ≠ bitAt bs i := by
    rw [bitAt_clearCrc h8', bitAt_clearCrc h8]
    split
    · rename_i hin
      exact iff_of_false (fun hne => hne rfl) fun hne => hne (h.spared i (by omega) hin.2)
    · exact Iff.rfl
  have hlength : (clearCrc received).length = (clearCrc bs).length := by
    rw [length_clearCrc h8', length_clearCrc h8, h.length]
  have hinside : k < 8 * (clearCrc received).length := by
    rw [length_clearCrc h8']
    by_contra hbeyond
    have hle : 8 * received.length ≤ k := Nat.not_lt.mp hbeyond
    exact hk (by rw [bitAt_of_beyond hle, bitAt_of_beyond (h.length ▸ hle)])
  have hne : getCrc32 (clearCrc received) ≠ getCrc32 (clearCrc bs) :=
    getCrc32_ne hlength (fun i hi => hwindow i ((hclear i).mp hi)) ⟨k, hinside, (hclear k).mpr hk⟩
  rw [UdpPkg.crc, bytes_decode hreceived, hdatacrc, ← hcrc, UdpPkg.crc, bytes_decode hbs]
  exact hne

/-- A burst in a packet as `sendPackage` builds it makes the receiver drop it as faulty. -/
theorem processReceive_burst (env : Env) (u : Udp) (sender : SockAddr) (p : UdpPkg)
    (type : BitVec 8) (seq : BitVec 32) (received : List UInt8) (beyond : Nat → UInt8)
    (hdata : p.datalen.toNat ≤ p.data.length) (hmax : p.datalen.toNat ≤ CONST_MAXPKTSIZE)
    (hburst : Burst (p.stamp type seq).bytes received) :
    (UdpPkg.decode ⟨received, beyond⟩).crc ≠ (UdpPkg.decode ⟨received, beyond⟩).datacrc ∧
      u.processReceive env sender ⟨received, beyond⟩ =
        ({ u with accesses := u.accesses ++
          [.crc (UdpPkg.decode ⟨received, beyond⟩).pkgLen received.length] }, 0) := by
  have hsent : (p.stamp type seq).datalen.toNat ≤ (p.stamp type seq).data.length := hdata
  have hdecode := UdpPkg.decode_bytes hsent beyond
  have hlength := UdpPkg.length_bytes hsent
  have hpkgLen : (p.stamp type seq).bytes.length =
      (UdpPkg.decode ⟨(p.stamp type seq).bytes, beyond⟩).pkgLen := by
    rw [hlength, hdecode]
    rfl
  have hcrc : (UdpPkg.decode ⟨(p.stamp type seq).bytes, beyond⟩).crc =
      (UdpPkg.decode ⟨(p.stamp type seq).bytes, beyond⟩).datacrc := by
    rw [hdecode]
    exact crc_take (p.stamp type seq)
  have hfaulty := @crc_ne_of_burst _ _ _ beyond hpkgLen hcrc hburst
  refine ⟨hfaulty, ?_⟩
  have hsize : received.length ≤ UdpPkg.size := by
    rw [hburst.length, hlength]
    exact Nat.add_le_add_left hmax _
  have hnonempty : received.length ≠ 0 := by
    rw [hburst.length, hlength]
    exact Nat.ne_of_gt (Nat.lt_of_lt_of_le (by decide) (Nat.le_add_right UdpPkg.headerSize _))
  unfold Udp.processReceive
  simp only [List.take_of_length_le hsize, if_neg hnonempty, if_pos hfaulty]

/-- Carries "ab". -/
def exampleFragment : UdpPkg := { UdpPkg.new with datalen := 2, data := [0x61, 0x62] }

/-- The lowest bit of both letters has changed. -/
def exampleBurst : List UInt8 := (exampleFragment.stamp PACKAGE_DATA 100001).bytes.take 28 ++ [0x60, 0x63]

theorem burst_exampleBurst : Burst (exampleFragment.stamp PACKAGE_DATA 100001).bytes exampleBurst := by
  have hsent : (exampleFragment.stamp PACKAGE_DATA 100001).bytes =
      [1, 1, 2, 0, 216, 100, 96, 203, 0, 0, 0, 0, 0, 0, 0, 0, 161, 134, 1, 0, 0, 0, 0, 0, 0, 0, 0, 0,
        0x61, 0x62] := by decide +kernel
  rw [exampleBurst, hsent]
  exact .of_inside 224 rfl (by decide +kernel) ⟨224, by decide⟩

theorem processReceive_burst_witness :
    Udp.new.processReceive exampleEnv examplePeer ⟨exampleBurst, fun _ => 0⟩ =
      ({ Udp.new with accesses := [.crc 30 30] }, 0) :=
  (processReceive_burst exampleEnv Udp.new examplePeer exampleFragment PACKAGE_DATA 100001 exampleBurst
    (fun _ => 0) (by decide) (by decide) burst_exampleBurst).2


end UDP

end Hardcoder
