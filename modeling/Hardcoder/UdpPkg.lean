import Hardcoder.Lib.LittleEndian
import Hardcoder.Lib.Stream

/-! Datagrams of the UDP transport (udp.h): the packet, its checksum, and how a
message is cut into fragments. -/

namespace Hardcoder
open LittleEndian Stream
set_option autoImplicit false

/-- One entry of `Crc32Table`. -/
def crc32Entry (i : BitVec 32) : BitVec 32 :=
  (List.range 8).foldl (fun crc _ => if crc &&& 1 ≠ 0 then (crc >>> 1) ^^^ 0xEDB88320 else crc >>> 1) i

def getCrc32 (data : List UInt8) : BitVec 32 :=
  data.foldl (fun (crc : BitVec 32) b =>
    (crc >>> 8) ^^^ crc32Entry ((crc &&& 0xFF) ^^^ b.toBitVec.setWidth 32)) 0xffffffff ^^^ 0xFFFFFFFF

namespace UDP

def CONST_MAXRETRANS : Nat := 5
def CONST_WINDOW : Nat := 5
def CONST_VERSION : BitVec 8 := 1
def CONST_MAXPKTSIZE : Nat := 1000

def PACKAGE_DATA : BitVec 8 := 1
def PACKAGE_ACK : BitVec 8 := 2
def PACKAGE_SYN : BitVec 8 := 4
def PACKAGE_FIN : BitVec 8 := 5

/-- `data` holds the bytes from `&udpPkg.data` on, `datalen` of them at least. -/
structure UdpPkg where
  version : BitVec 8
  type : BitVec 8
  datalen : BitVec 16
  datacrc : BitVec 32
  totallen : BitVec 32
  offset : BitVec 32
  seq : BitVec 32
  sessionid : BitVec 64
  data : List UInt8
deriving DecidableEq, Repr

namespace UdpPkg

/-- `UdpPkg()` -/
def new : UdpPkg := ⟨0, 0, 0, 0, 0, 0, 0, 0, []⟩

/-- `sizeof(UdpPkg) - sizeof(data)` -/
def headerSize : Nat := 28

/-- `sizeof(UdpPkg)` -/
def size : Nat := headerSize + CONST_MAXPKTSIZE

def pkgLen (p : UdpPkg) : Nat := headerSize + p.datalen.toNat

def header (p : UdpPkg) : List UInt8 :=
  word 1 p.version ++ (word 1 p.type ++ (word 2 p.datalen ++ (word 4 p.datacrc ++
    (word 4 p.totallen ++ (word 4 p.offset ++ (word 4 p.seq ++ word 8 p.sessionid))))))

/-- The first `pkgLen()` bytes of the packed struct. -/
def bytes (p : UdpPkg) : List UInt8 := p.header ++ p.data.take p.datalen.toNat

/-- The struct `recvfrom` wrote `d.bytes` into: the header was cleared before, behind
the received bytes lies what `d` says. -/
def decode (d : Delivery UInt8) : UdpPkg :=
  let bs := d.bytes ++ List.replicate headerSize 0
  { version := field 0 1 bs
    type := field 1 1 bs
    datalen := field 2 2 bs
    datacrc := field 4 4 bs
    totallen := field 8 4 bs
    offset := field 12 4 bs
    seq := field 16 4 bs
    sessionid := field 20 8 bs
    data := d.read headerSize (field 2 2 bs).toNat }

def crc (p : UdpPkg) : BitVec 32 := getCrc32 { p with datacrc := 0 }.bytes

/-- What `sendPackage` writes into the packet. -/
def stamp (p : UdpPkg) (type : BitVec 8) (seq : BitVec 32) : UdpPkg :=
  let p := { p with version := CONST_VERSION, type := type, seq := seq }
  { p with datacrc := p.crc }

@[simp] theorem length_header (p : UdpPkg) : p.header.length = headerSize := by
  simp [header, headerSize]

theorem length_bytes {p : UdpPkg} (h : p.datalen.toNat ≤ p.data.length) :
    p.bytes.length = p.pkgLen := by
  rw [bytes, List.length_append, length_header, List.length_take, Nat.min_eq_left h, pkgLen]

theorem decode_header (p : UdpPkg) (rest : List UInt8) (beyond : Nat → UInt8) :
    decode ⟨p.header ++ rest, beyond⟩ =
      { p with data := (Delivery.mk (p.header ++ rest) beyond).read headerSize p.datalen.toNat } := by
  cases p
  simp [decode, header, field_skip, field_word]

theorem decode_bytes {p : UdpPkg} (h : p.datalen.toNat ≤ p.data.length) (beyond : Nat → UInt8) :
    decode ⟨p.bytes, beyond⟩ = { p with data := p.data.take p.datalen.toNat } := by
  have hread : (Delivery.mk p.bytes beyond).read headerSize p.datalen.toNat =
      p.data.take p.datalen.toNat := by
    have hdrop : p.bytes.drop headerSize = p.data.take p.datalen.toNat ++ [] := by
      rw [bytes, List.drop_left' p.length_header, List.append_nil]
    have hlen : (p.data.take p.datalen.toNat).length = p.datalen.toNat := by
      rw [List.length_take, Nat.min_eq_left h]
    have hprefix := (Delivery.mk p.bytes beyond).read_front hdrop
    rwa [hlen] at hprefix
  cases p
  simp only [decode, bytes, header, List.append_assoc] at hread ⊢
  simp [field_skip, field_word]
  simpa using hread

theorem decode_take (p : UdpPkg) (beyond : Nat → UInt8) :
    ∃ data, decode ⟨p.bytes.take size, beyond⟩ = { p with data := data } := by
  have htake : p.bytes.take size =
      p.header ++ (p.data.take p.datalen.toNat).take CONST_MAXPKTSIZE := by
    rw [bytes, size, ← p.length_header, List.take_length_add_append]
  rw [htake]
  exact ⟨_, decode_header p _ beyond⟩

theorem decode_fits {p : UdpPkg} (hlen : p.data.length = p.datalen.toNat)
    (hmax : p.datalen.toNat ≤ CONST_MAXPKTSIZE) (beyond : Nat → UInt8) :
    decode ⟨p.bytes.take size, beyond⟩ = p := by
  have hsize : p.bytes.length ≤ size := by
    rw [length_bytes (Nat.le_of_eq hlen.symm)]
    exact Nat.add_le_add_left hmax _
  rw [List.take_of_length_le hsize, decode_bytes (Nat.le_of_eq hlen.symm), ← hlen, List.take_length]

@[simp] theorem stamp_type (p : UdpPkg) (type : BitVec 8) (seq : BitVec 32) :
    (p.stamp type seq).type = type := rfl

@[simp] theorem stamp_seq (p : UdpPkg) (type : BitVec 8) (seq : BitVec 32) :
    (p.stamp type seq).seq = seq := rfl

theorem crc_stamp (p : UdpPkg) (type : BitVec 8) (seq : BitVec 32) :
    (p.stamp type seq).crc = (p.stamp type seq).datacrc := rfl

theorem stamp_stamp (p : UdpPkg) (type : BitVec 8) (seq : BitVec 32) :
    (p.stamp type seq).stamp type seq = p.stamp type seq := rfl

/-- Sent once already, so that sending it again leaves it as it is. -/
def Stamped (p : UdpPkg) : Prop := p.stamp p.type p.seq = p

theorem stamped_stamp (p : UdpPkg) (type : BitVec 8) (seq : BitVec 32) :
    (p.stamp type seq).Stamped :=
  stamp_stamp p type seq

end UdpPkg

end UDP

end Hardcoder
