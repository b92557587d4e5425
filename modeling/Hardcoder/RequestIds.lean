import Hardcoder.Protocol
import Mathlib.Tactic.NormNum
import Mathlib.Data.List.Basic

/-! The ids of the requests of one process: each is the microsecond at which
`genReqPack` read the clock (header.h), whichever thread called it. -/

namespace Hardcoder
set_option autoImplicit false

/-- One call of `genReqPack` by any thread, with the version set at the time and the
clock as the call reads it. -/
structure GenReqCall where
  HEADER_VERSION : BitVec 16
  heap : Uninit
  now : TimeVal
  funcid : BitVec 32
  data : Option (List UInt8)
  dataLen : BitVec 32
  callertid : BitVec 32
  timestamp : BitVec 64
deriving DecidableEq, Repr

namespace GenReqCall
variable (c : GenReqCall)

def pack : GenPack :=
  genReqPack c.HEADER_VERSION c.heap c.now c.funcid c.data c.dataLen c.callertid c.timestamp

/-- The id a successful call returns. -/
def requestid : Option Int := c.pack.outPack.map fun _ => c.pack.ret

/-- The arguments pass the three checks before the header is built. -/
structure Accepted : Prop where
  data : ¬ (0 < c.dataLen.toInt ∧ c.data = none)
  funcid : c.funcid.toNat ≤ 65535
  version : HEADER_PROTOCAL_VERSION ≤ c.HEADER_VERSION

theorem accepted_iff : c.Accepted ↔ ¬ (0 < c.dataLen.toInt ∧ c.data = none) ∧
    c.funcid.toNat ≤ 65535 ∧ HEADER_PROTOCAL_VERSION ≤ c.HEADER_VERSION :=
  ⟨fun h => ⟨h.data, h.funcid, h.version⟩, fun h => ⟨h.1, h.2.1, h.2.2⟩⟩

instance : Decidable c.Accepted := decidable_of_iff _ c.accepted_iff.symm

/-- The reading in microseconds. -/
def micros : Int := c.now.tv_sec * 1000 * 1000 + c.now.tv_usec

theorem requestid_eq : c.requestid = if c.Accepted then some (c.micros.bmod (2 ^ 64)) else none := by
  by_cases hc : c.Accepted
  · rw [if_pos hc, requestid, pack, genReqPack, if_neg hc.data, if_neg (by have := hc.funcid; omega),
      if_neg (BitVec.not_lt.mpr hc.version)]
    have hid : c.now.micros.toInt = c.micros.bmod (2 ^ 64) := BitVec.toInt_ofInt _
    dsimp only
    split
    · exact congrArg some hid
    · exact congrArg some hid
  · rw [if_neg hc, requestid, pack, genReqPack]
    split
    · rfl
    rename_i hdata
    split
    · rfl
    rename_i hfuncid
    split
    · rfl
    rename_i hversion
    exact absurd ⟨hdata, by omega, BitVec.not_lt.mp hversion⟩ hc

end GenReqCall

section Ids
variable (calls : List GenReqCall)

/-- The ids given out, in the order of the calls. -/
def requestids : List Int := calls.filterMap GenReqCall.requestid

/-- What the maps keyed by the id need of it. -/
structure UniqueIds : Prop where
  nodup : (requestids calls).Nodup
  pos : ∀ requestid ∈ requestids calls, 0 < requestid

/-- No two accepted calls read one microsecond, and none reads the epoch or earlier, as
far as 64 bits of microseconds tell times apart. -/
structure Apart : Prop where
  distinct : (calls.filter (·.Accepted)).Pairwise fun a b => ¬ (2 ^ 64 : Int) ∣ b.micros - a.micros
  pos : ∀ c ∈ calls, c.Accepted → 0 < c.micros % 2 ^ 64 ∧ c.micros % 2 ^ 64 < 2 ^ 63

variable {calls}

theorem requestids_eq : requestids calls =
    (calls.filter (·.Accepted)).map fun c => c.micros.bmod (2 ^ 64) := by
  induction calls with
  | nil => rfl
  | cons c calls ih =>
    unfold requestids at ih ⊢
    by_cases hc : c.Accepted
    · rw [List.filterMap_cons_some (c.requestid_eq.trans (if_pos hc)), ih,
        List.filter_cons_of_pos (by simpa using hc), List.map_cons]
    · rw [List.filterMap_cons_none (c.requestid_eq.trans (if_neg hc)), ih,
        List.filter_cons_of_neg (by simpa using hc)]

theorem bmod_eq_bmod_iff (a b : Int) : a.bmod (2 ^ 64) = b.bmod (2 ^ 64) ↔ (2 ^ 64 : Int) ∣ b - a := by
  rw [Int.bmod_eq_emod, Int.bmod_eq_emod]
  norm_num
  split <;> split <;> omega

theorem bmod_pos_iff (a : Int) : 0 < a.bmod (2 ^ 64) ↔ 0 < a % 2 ^ 64 ∧ a % 2 ^ 64 < 2 ^ 63 := by
  rw [Int.bmod_eq_emod]
  norm_num
  split <;> omega

theorem uniqueIds_iff_apart : UniqueIds calls ↔ Apart calls := by
  have hnodup : (requestids calls).Nodup ↔ (calls.filter (·.Accepted)).Pairwise fun a b =>
      ¬ (2 ^ 64 : Int) ∣ b.micros - a.micros := by
    rw [requestids_eq, List.Nodup, List.pairwise_map]
    simp only [Ne, bmod_eq_bmod_iff]
  have hpos : (∀ requestid ∈ requestids calls, 0 < requestid) ↔
      ∀ c ∈ calls, c.Accepted → 0 < c.micros % 2 ^ 64 ∧ c.micros % 2 ^ 64 < 2 ^ 63 := by
    rw [requestids_eq, List.forall_mem_map]
    simp only [List.mem_filter, decide_eq_true_eq, and_imp, bmod_pos_iff]
  exact ⟨fun h => ⟨hnodup.mp h.nodup, hpos.mp h.pos⟩, fun h => ⟨hnodup.mpr h.distinct, hpos.mpr h.pos⟩⟩

/-- A clock that never goes back and stays within 64 bits must advance between any two
requests. -/
theorem apart_iff_advances (hmono : calls.Pairwise fun a b => a.micros ≤ b.micros)
    (hrange : ∀ c ∈ calls, 0 ≤ c.micros ∧ c.micros < 2 ^ 63) :
    Apart calls ↔ (calls.filter (·.Accepted)).Pairwise (fun a b => a.micros < b.micros) ∧
      ∀ c ∈ calls, c.Accepted → c.micros ≠ 0 := by
  have hmem : ∀ c ∈ calls.filter (·.Accepted), c ∈ calls := fun c hc => (List.mem_filter.mp hc).1
  constructor
  · intro h
    refine ⟨(h.distinct.and (hmono.filter _)).imp_of_mem fun ha hb hab => ?_, fun c hc hacc => ?_⟩
    · have hne : ¬ (2 ^ 64 : Int) ∣ _ := hab.1
      have hle := hab.2
      by_contra hlt
      apply hne
      have heq : ∀ x y : Int, x ≤ y → ¬ x < y → y - x = 0 := by omega
      rw [heq _ _ hle hlt]
      exact dvd_zero _
    · have := (h.pos c hc hacc).1
      intro h0
      rw [h0] at this
      omega
  · rintro ⟨hlt, hne⟩
    refine ⟨hlt.imp_of_mem fun ha hb hab => ?_, fun c hc hacc => ?_⟩
    · have hra := hrange _ (hmem _ ha)
      have hrb := hrange _ (hmem _ hb)
      omega
    · have hr := hrange c hc
      have := hne c hc hacc
      omega

/-- A `cancelCpuHighFreq` of the given thread, always at the same microsecond. -/
def cancelCall (callertid : BitVec 32) : GenReqCall :=
  ⟨4, ⟨0, 0, 0⟩, ⟨1700000000, 5⟩, FUNC_CANCEL_CPU_HIGH_FREQ, none, 0, callertid, 9⟩

/-- Two threads within one microsecond get one id. -/
theorem requestids_collide :
    ([cancelCall 7, cancelCall 8].Pairwise fun a b => a.micros ≤ b.micros) ∧
    requestids [cancelCall 7, cancelCall 8] = [1700000000000005, 1700000000000005] ∧
    ¬ UniqueIds [cancelCall 7, cancelCall 8] := by
  have hids : requestids [cancelCall 7, cancelCall 8] = [1700000000000005, 1700000000000005] := by
    decide +kernel
  refine ⟨by decide, hids, fun h => ?_⟩
  have hnodup := h.nodup
  rw [hids] at hnodup
  exact absurd hnodup (by decide)

end Ids

end Hardcoder
