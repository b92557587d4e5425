import Hardcoder.ClientEngines
import Hardcoder.RequestIds
import Hardcoder.Lib.Strtol

/-! The remote path given to `Client::init` (client.h): the name of the socket, and the
header version behind the first `|`. -/

namespace Hardcoder
open Strtol
set_option autoImplicit false

namespace Client

/-- The part behind the first `|`, or all of the path where there is none (util.h). -/
def getVersion (str : Option StdString) : Option StdString :=
  str.map fun str =>
    match str.findIdx? (· == 124) with
    | some prefix_len => str.drop (prefix_len + 1)
    | none => str

/-- What `init` assigns to the `uint16_t` `HEADER_VERSION`. -/
def headerVersion (long : CLong) (remote : Option StdString) : BitVec 16 :=
  match getVersion remote with
  | none => HEADER_PROTOCAL_VERSION
  | some version =>
    let HEADER_VERSION := (atoi long version).setWidth 16
    if HEADER_VERSION ≤ 0 then HEADER_PROTOCAL_VERSION else HEADER_VERSION

/-- `HEADER_VERSION` when `init` returns. -/
def initVersion (long : CLong) (s : Sys) (HEADER_VERSION : BitVec 16) (remote : Option StdString) :
    BitVec 16 :=
  if s.m_pClientEngine.isSome then HEADER_VERSION else headerVersion long remote

/-- The path is a name, `|` and the number of a version that a request can be sent with. -/
structure Versioned (remote : Option StdString) (name digits : StdString) : Prop where
  path : remote = some (name ++ 124 :: digits)
  first : (124 : UInt8) ∉ name
  numeral : Numeral digits
  least : HEADER_PROTOCAL_VERSION.toNat ≤ value digits
  fits : value digits ≤ 65535

/-- The client is set up as the path says. -/
structure Configured (remote : Option StdString) (s : Sys) (HEADER_VERSION : BitVec 16) : Prop where
  name : ∀ name version, remote = some (name ++ 124 :: version) → (124 : UInt8) ∉ name →
    s.m_remote = name
  whole : ∀ str, remote = some str → (124 : UInt8) ∉ str → s.m_remote = str
  version : ∀ name digits, Versioned remote name digits → HEADER_VERSION.toNat = value digits
  protocal : (∀ name digits, ¬ Versioned remote name digits) →
    HEADER_VERSION = HEADER_PROTOCAL_VERSION
  accepts : ∀ c : GenReqCall, c.HEADER_VERSION = HEADER_VERSION →
    ¬ (0 < c.dataLen.toInt ∧ c.data = none) → c.funcid.toNat ≤ 65535 → c.requestid.isSome

/-- The text the version is read from starts with a number, if any, whose last sixteen bits
are those of the default version or all zero. -/
def ReadsDefault (long : CLong) (text : StdString) : Prop :=
  Strtol.number text < -long.bound ∨
  (-long.bound ≤ Strtol.number text ∧ Strtol.number text < long.bound ∧
    (Strtol.number text % 65536 = 0 ∨ Strtol.number text % 65536 = 4))

/-- The path names a version to use, or what `atoi` finds in it comes to the default. -/
def Honoured (long : CLong) (remote : Option StdString) : Prop :=
  (∃ name digits, Versioned remote name digits) ∨
    ∀ text, getVersion remote = some text → ReadsDefault long text

section Init
variable {long : CLong} {remote : Option StdString} {s : Sys} {o : Outcome} {port : JInt}
  {localpath : Option StdString} {HEADER_VERSION : BitVec 16}

theorem newEngine_m_remote : (s.newEngine o).1.m_remote = s.m_remote := by
  unfold Sys.newEngine
  generalize (if s.m_port ≠ 0 then UdpClient.start o.socket else LocalsocketClient.start o.socket) = r
  dsimp only
  split
  · split
    · rfl
    · split <;> rfl
  · rfl

theorem tryStartEngine_m_remote : (s.tryStartEngine o).1.m_remote = s.m_remote := by
  unfold Sys.tryStartEngine
  split
  · rfl
  split
  · rfl
  split
  · rfl
  dsimp only
  split
  · exact newEngine_m_remote
  · exact newEngine_m_remote

theorem init_m_remote (h : s.m_pClientEngine = none) :
    (s.init remote port localpath o).m_remote = getSocketName remote := by
  rw [Sys.init, h]
  exact tryStartEngine_m_remote

theorem getSocketName_name {name version : StdString} (h : (124 : UInt8) ∉ name) :
    getSocketName (some (name ++ 124 :: version)) = name := by
  have hname : ∀ c ∈ name, (c != 124) = true := by
    intro c hc
    rw [bne_iff_ne]
    rintro rfl
    exact h hc
  rw [getSocketName, Option.getD_some, List.takeWhile_append_of_pos hname,
    List.takeWhile_cons_of_neg (by decide), List.append_nil]

theorem getSocketName_whole {str : StdString} (h : (124 : UInt8) ∉ str) :
    getSocketName (some str) = str := by
  rw [getSocketName, Option.getD_some, List.takeWhile_eq_self_iff]
  intro c hc
  rw [bne_iff_ne]
  rintro rfl
  exact h hc

theorem getVersion_name {name version : StdString} (h : (124 : UInt8) ∉ name) :
    getVersion (some (name ++ 124 :: version)) = some version := by
  have hidx : (name ++ 124 :: version).findIdx? (· == 124) = some name.length := by
    rw [List.findIdx?_append, List.findIdx?_eq_none_iff.mpr]
    · rw [List.findIdx?_cons]
      simp
    · intro c hc
      rw [beq_eq_false_iff_ne]
      rintro rfl
      exact h hc
  simp only [getVersion, Option.map_some, hidx, List.drop_append]
  simp

theorem headerVersion_versioned {name digits : StdString} (h : Versioned remote name digits) :
    (headerVersion long remote).toNat = value digits := by
  have hnum := number_numeral h.numeral
  have hfits := h.fits
  have hleast : 4 ≤ value digits := h.least
  have hlow := toNat_atoi_low long digits
  rw [strtol_of_small long (by omega) (by omega), hnum] at hlow
  simp only [headerVersion, h.path, getVersion_name h.first]
  have hpos : ¬ (atoi long digits).setWidth 16 ≤ 0 := by
    rw [BitVec.le_def]
    have h0 : (0 : BitVec 16).toNat = 0 := rfl
    omega
  rw [if_neg hpos]
  omega

theorem headerVersion_eq_default_iff : headerVersion long remote = HEADER_PROTOCAL_VERSION ↔
    ∀ text, getVersion remote = some text → ReadsDefault long text := by
  unfold headerVersion
  cases getVersion remote with
  | none => exact ⟨fun _ _ h => (nomatch h), fun _ => rfl⟩
  | some version =>
    have hlow := toNat_atoi_low long version
    have hzero := strtol_low_iff long version (r := 0) (.inl rfl)
    have hfour := strtol_low_iff long version (r := 4) (.inr rfl)
    have hdefault : ReadsDefault long version ↔
        strtol long version % 65536 = 0 ∨ strtol long version % 65536 = 4 := by
      rw [hzero, hfour, ReadsDefault]
      omega
    simp only [Option.some_inj, forall_eq', hdefault, ← hlow]
    by_cases h0 : (atoi long version).setWidth 16 ≤ 0
    · have hz : ((atoi long version).setWidth 16).toNat = 0 := by
        rw [BitVec.le_def] at h0
        exact Nat.le_zero.mp h0
      rw [if_pos h0, hz]
      exact ⟨fun _ => .inl rfl, fun _ => rfl⟩
    · have hne : ((atoi long version).setWidth 16).toNat ≠ 0 := by
        rw [BitVec.le_def] at h0
        exact fun hz => h0 (hz ▸ Nat.zero_le _)
      have h4 : HEADER_PROTOCAL_VERSION.toNat = 4 := rfl
      rw [if_neg h0, ← BitVec.toNat_inj, h4]
      omega

theorem accepts_of_least {HEADER_VERSION : BitVec 16} (h : HEADER_PROTOCAL_VERSION ≤ HEADER_VERSION)
    (c : GenReqCall) (hc : c.HEADER_VERSION = HEADER_VERSION)
    (hdata : ¬ (0 < c.dataLen.toInt ∧ c.data = none)) (hfuncid : c.funcid.toNat ≤ 65535) :
    c.requestid.isSome := by
  rw [c.requestid_eq, if_pos ⟨hdata, hfuncid, hc ▸ h⟩]
  rfl

/-- A first `init` sets the client up as the path says just when the path has a usable
version or what `atoi` finds comes to the default. -/
theorem configured_iff_honoured (h : s.m_pClientEngine = none) :
    Configured remote (s.init remote port localpath o)
      (initVersion long s HEADER_VERSION remote) ↔ Honoured long remote := by
  have hversion : initVersion long s HEADER_VERSION remote = headerVersion long remote := by
    rw [initVersion, h]
    rfl
  rw [hversion]
  constructor
  · intro hc
    by_cases hv : ∃ name digits, Versioned remote name digits
    · exact .inl hv
    · exact .inr (headerVersion_eq_default_iff.mp
        (hc.protocal fun name digits hvd => hv ⟨name, digits, hvd⟩))
  · intro hh
    refine
      { name := fun name version hpath hfirst => ?_
        whole := fun str hstr hfirst => ?_
        version := fun name digits hv => headerVersion_versioned hv
        protocal := fun hnone => ?_
        accepts := accepts_of_least ?_ }
    · rw [init_m_remote h, hpath, getSocketName_name hfirst]
    · rw [init_m_remote h, hstr, getSocketName_whole hfirst]
    · rcases hh with ⟨name, digits, hv⟩ | hdefault
      · exact absurd hv (hnone name digits)
      · exact headerVersion_eq_default_iff.mpr hdefault
    · rcases hh with ⟨name, digits, hv⟩ | hdefault
      · rw [BitVec.le_def, headerVersion_versioned hv]
        exact hv.least
      · rw [headerVersion_eq_default_iff.mpr hdefault]
        decide

/-- `127.0.0.1` -/
def loopback : StdString := [49, 50, 55, 46, 48, 46, 48, 46, 49]

theorem configured_iff_honoured_loopback :
    Configured (some loopback) (init.init (some loopback) 8888 none ⟨0, -1, .later⟩)
      (initVersion .lp64 init 4 (some loopback)) ↔ Honoured .lp64 (some loopback) :=
  configured_iff_honoured rfl

/-- An address without a version is read as version 127, in which requests are JSON. -/
theorem configured_loopback :
    (124 : UInt8) ∉ loopback ∧ initVersion .lp64 init 4 (some loopback) = 127 ∧
    HEADER_JSON_VERSION ≤ initVersion .lp64 init 4 (some loopback) ∧
    ¬ Configured (some loopback) (init.init (some loopback) 8888 none ⟨0, -1, .later⟩)
      (initVersion .lp64 init 4 (some loopback)) := by
  have hversion : initVersion .lp64 init 4 (some loopback) = 127 := by decide +kernel
  have hfirst : (124 : UInt8) ∉ loopback := by decide
  refine ⟨hfirst, hversion, by rw [hversion]; decide, fun hc => ?_⟩
  have hnone : ∀ name digits, ¬ Versioned (some loopback) name digits := by
    intro name digits hv
    apply hfirst
    rw [Option.some.inj hv.path]
    exact List.mem_append_right _ (List.mem_cons_self ..)
  have h4 := hc.protocal hnone
  rw [hversion] at h4
  exact absurd h4 (by decide)

-- version 2, below the least, is taken as it is: `genReqPack` then refuses every request
example : initVersion .lp64 init 4 (some [120, 124, 50]) = 2 := by decide +kernel

end Init

end Client

end Hardcoder
