import Hardcoder.ClientFraming
import Hardcoder.Lib.Runs

/-! Whether the loop of the client's `recvEvent` ends. It does not when the event before
left more than a version 1 header and less than a whole packet of version 2. -/

namespace Hardcoder
open Stream Runs
set_option autoImplicit false

namespace LocalsocketClient

/-- Where the loop goes on after the pass. -/
def Pass.resume : Pass → Option (Nat × RecvState)
  | .next recvDataOffset st => some (recvDataOffset, st)
  | .callback recvDataOffset st _ => some (recvDataOffset, st)
  | .refuse _ | .fault => none

/-- The loop: one pass after the other while bytes are left. -/
def nextPass (d : Delivery UInt8) (s : Nat × RecvState) : Option (Nat × RecvState) :=
  if d.bytes.length ≤ s.1 then none else (recvPass d s.1 s.2).resume

/-- The pass moves on in the chunk or is the last. -/
def Advances (d : Delivery UInt8) (s : Nat × RecvState) : Prop :=
  ∀ t, nextPass d s = some t → s.1 < t.1

def RecvState.pHeader (st : RecvState) : AMCRespHeader := .decode st.respHeaderBuf

/-- The header that was received whole is one of version 2. -/
def RecvState.IsV2 (st : RecvState) : Prop := HEADER_JSON_VERSION ≤ st.pHeader.version

/-- What one event leaves for the next. -/
structure Resumable (st : RecvState) : Prop where
  fresh : st.respHeaderOffset < AMCRespHeader.size → st.respPayloadOffset = 0
  begin : st.respHeaderOffset = AMCRespHeader.size → st.pHeader.begin = HEADER_BEGIN
  payloadV2 : st.respHeaderOffset = AMCRespHeader.size → st.IsV2 → st.respPayloadOffset = 0
  payload : st.respHeaderOffset = AMCRespHeader.size → ¬ st.IsV2 →
    st.respPayloadOffset < st.pHeader.bodylen.toNat

theorem resumable_restart (st : RecvState) : Resumable st.restart :=
  have hne : st.restart.respHeaderOffset ≠ AMCRespHeader.size := fun h => Nat.zero_ne_add_one 31 h
  ⟨fun _ => rfl, fun h => absurd h hne, fun h => absurd h hne, fun h => absurd h hne⟩

/-- The body is complete, or the pass takes all that it counts as left. -/
inductive Payload (recvDataLeft recvDataOffset bodylen : Nat) (st : RecvState) : Pass → Prop where
  | fault : Payload recvDataLeft recvDataOffset bodylen st .fault
  | done (n : Nat) (call : Callback) (hn : st.respPayloadOffset + n = bodylen) :
      Payload recvDataLeft recvDataOffset bodylen st
        (.callback (recvDataOffset + n) st.restart call)
  | more (payload : Option (List UInt8)) (hlt : st.respPayloadOffset + recvDataLeft < bodylen) :
      Payload recvDataLeft recvDataOffset bodylen st (.next (recvDataOffset + recvDataLeft)
        { st with
          respPayload := payload
          respPayloadOffset := st.respPayloadOffset + recvDataLeft })

theorem fillPayload_cases (d : Delivery UInt8) (left pos : Nat) (pHeader : AMCRespHeader)
    (bodyformat : BitVec 32) {st : RecvState}
    (hle : st.respPayloadOffset ≤ pHeader.bodylen.toNat) :
    Payload left pos pHeader.bodylen.toNat st (fillPayload d left pos pHeader bodyformat st) := by
  have hmissing : (((pHeader.bodylen.toNat : Int) - st.respPayloadOffset) % 2 ^ 32).toNat =
      pHeader.bodylen.toNat - st.respPayloadOffset := by
    have hword := pHeader.bodylen.isLt
    omega
  by_cases hzero : pHeader.bodylen.toNat = 0
  · have hoff : st.respPayloadOffset = pHeader.bodylen.toNat := by omega
    simp only [fillPayload, if_pos hzero, if_pos hoff]
    exact .done 0 _ hoff
  · simp only [fillPayload, if_neg hzero, hmissing]
    split
    · exact .fault
    · by_cases hfit : pHeader.bodylen.toNat - st.respPayloadOffset ≤ left
      · rw [Nat.min_eq_left hfit, if_pos (Nat.add_sub_of_le hle)]
        exact .done _ _ (Nat.add_sub_of_le hle)
      · rw [Nat.min_eq_right (by omega), if_neg (by omega)]
        exact .more _ (by omega)

theorem handlePack_resume {d : Delivery UInt8} {left off : Nat} {st : RecvState}
    {t : Nat × RecvState} (hho : st.respHeaderOffset = AMCRespHeader.size)
    (hV2 : st.IsV2 → st.respPayloadOffset = 0)
    (hpayload : ¬ st.IsV2 → st.respPayloadOffset ≤ st.pHeader.bodylen.toNat)
    (hleft : d.bytes.length ≤ off + left)
    (ht : (handlePack d left off st).resume = some t) :
    off ≤ t.1 ∧ Resumable t.2 ∧ (t.2.respHeaderOffset = 0 ∨ d.bytes.length ≤ t.1) ∧
      ((st.IsV2 → off < d.bytes.length) →
        (¬ st.IsV2 → st.respPayloadOffset < st.pHeader.bodylen.toNat) → 0 < left → off < t.1) := by
  by_cases hbegin : st.pHeader.begin ≠ HEADER_BEGIN
  · have hpass : handlePack d left off st =
        .refuse { st with respPayload := none, respHeaderOffset := 0 } := if_pos hbegin
    rw [hpass] at ht
    cases ht
  have hok : st.pHeader.begin = HEADER_BEGIN := not_not.mp hbegin
  by_cases hv : st.IsV2
  · obtain ⟨e, he⟩ : ∃ e, e = min (AMCRespHeaderV2.size - st.respHeaderOffset)
        (d.bytes.length - off) := ⟨_, rfl⟩
    obtain ⟨st', hst'⟩ : ∃ st', st' = st.fillHeader (d.read off e) := ⟨_, rfl⟩
    have hpass : handlePack d left off st = fillPayload d (d.bytes.length - off) (off + e)
        (AMCRespHeaderV2.decode st'.respHeaderBuf).toAMCRespHeader
        (AMCRespHeaderV2.decode st'.respHeaderBuf).bodyformat st' := by
      rw [hst', he]
      exact (if_neg hbegin).trans (if_pos hv)
    have hoff' : st'.respHeaderOffset = AMCRespHeader.size + e := by
      rw [hst', RecvState.fillHeader, Delivery.length_read, hho]
    have hzero : st'.respPayloadOffset = 0 := by
      rw [hst']
      exact hV2 hv
    have hcases := fillPayload_cases d (d.bytes.length - off) (off + e)
      (AMCRespHeaderV2.decode st'.respHeaderBuf).toAMCRespHeader
      (AMCRespHeaderV2.decode st'.respHeaderBuf).bodyformat (by rw [hzero]; exact Nat.zero_le _)
    have hsize : AMCRespHeaderV2.size - st.respHeaderOffset = 20 := by rw [hho]; rfl
    rw [hpass] at ht
    generalize fillPayload d _ _ _ _ st' = pass at hcases ht
    cases hcases with
    | fault => cases ht
    | done n call hn =>
      obtain rfl := Option.some.inj ht
      refine ⟨by dsimp only; omega, resumable_restart st', .inl rfl, fun hlt _ _ => ?_⟩
      have := hlt hv
      dsimp only
      omega
    | more payload hlt =>
      obtain rfl := Option.some.inj ht
      refine ⟨by dsimp only; omega, ?_, .inr (by dsimp only; omega), fun hlt _ _ => ?_⟩
      · -- nothing of the extension has come, so that the buffer holds what it held
        have hsame (hwhole : st'.respHeaderOffset = AMCRespHeader.size) :
            d.bytes.length - off = 0 ∧ st' = st := by
          have hnone : e = 0 := by omega
          refine ⟨by omega, ?_⟩
          rw [hst', hnone, Delivery.read_zero, RecvState.fillHeader_nil]
        refine ⟨fun hlt => ?_, fun hwhole => ?_, fun hwhole _ => ?_, fun hwhole hnot => ?_⟩
        · change st'.respHeaderOffset < _ at hlt
          omega
        · rw [RecvState.pHeader, (hsame hwhole).2]
          exact hok
        · dsimp only
          rw [hzero, (hsame hwhole).1]
        · refine absurd ?_ hnot
          rw [RecvState.IsV2, RecvState.pHeader, (hsame hwhole).2]
          exact hv
      · have := hlt hv
        dsimp only
        omega
  · have hpass : handlePack d left off st =
        fillPayload d left off st.pHeader HEADER_BODYFORMAT_PROTO st :=
      (if_neg hbegin).trans (if_neg hv)
    have hcases := fillPayload_cases d left off st.pHeader HEADER_BODYFORMAT_PROTO (hpayload hv)
    rw [hpass] at ht
    generalize fillPayload d _ _ _ _ st = pass at hcases ht
    cases hcases with
    | fault => cases ht
    | done n call hn =>
      obtain rfl := Option.some.inj ht
      refine ⟨Nat.le_add_right _ _, resumable_restart st, .inl rfl, fun _ hlt _ => ?_⟩
      have := hlt hv
      dsimp only
      omega
    | more payload hlt =>
      obtain rfl := Option.some.inj ht
      refine ⟨Nat.le_add_right _ _, ?_, .inr hleft, fun _ _ hpos => by dsimp only; omega⟩
      refine ⟨fun hlt => ?_, fun _ => hok, fun _ hV2 => absurd hV2 hv, fun _ _ => hlt⟩
      exact absurd hho (Nat.ne_of_lt hlt)

/-- The header part of a pass, by the bytes it takes. -/
theorem recvPass_eq (d : Delivery UInt8) (pos : Nat) (st : RecvState) :
    ∃ n st', n = min (AMCRespHeader.size - st.respHeaderOffset) (d.bytes.length - pos) ∧
      st'.respHeaderOffset = st.respHeaderOffset + n ∧
      st'.respPayloadOffset = st.respPayloadOffset ∧ (n = 0 → st' = st) ∧
      recvPass d pos st = if st'.respHeaderOffset = AMCRespHeader.size then
        handlePack d (d.bytes.length - pos) (pos + n) st' else .next (pos + n) st' := by
  refine ⟨min (AMCRespHeader.size - st.respHeaderOffset) (d.bytes.length - pos),
    if st.respHeaderOffset < AMCRespHeader.size then st.fillHeader (d.read pos
      (min (AMCRespHeader.size - st.respHeaderOffset) (d.bytes.length - pos))) else st,
    rfl, ?_, ?_, fun hn => ?_, rfl⟩
  · split
    · rw [RecvState.fillHeader, Delivery.length_read]
    · omega
  · split <;> rfl
  · split
    · rw [hn, Delivery.read_zero, RecvState.fillHeader_nil]
    · rfl

theorem recvPass_resume {d : Delivery UInt8} {pos : Nat} {st : RecvState} {t : Nat × RecvState}
    (h : Resumable st) (hho : st.respHeaderOffset ≤ AMCRespHeader.size)
    (hpos : pos < d.bytes.length) (ht : (recvPass d pos st).resume = some t) :
    pos < t.1 ∧ Resumable t.2 ∧
      (t.2.respHeaderOffset ≤ AMCRespHeader.size ∨ d.bytes.length ≤ t.1) := by
  obtain ⟨n, st', hn, hoff, hpayload, hsame, hpass⟩ := recvPass_eq d pos st
  rw [hpass] at ht
  by_cases hwhole : st'.respHeaderOffset = AMCRespHeader.size
  · rw [if_pos hwhole] at ht
    by_cases hn0 : n = 0
    · -- the header was whole before
      rw [hsame hn0, hn0, Nat.add_zero] at ht
      rw [hsame hn0] at hwhole
      obtain ⟨hle, hresumable, hend, hstrict⟩ := handlePack_resume hwhole (h.payloadV2 hwhole)
        (fun hv => (h.payload hwhole hv).le) (by omega) ht
      refine ⟨hstrict (fun _ => hpos) (h.payload hwhole) (by omega), hresumable, ?_⟩
      exact hend.imp_left fun h0 => h0.le.trans (Nat.zero_le _)
    · have hzero : st'.respPayloadOffset = 0 := hpayload.trans (h.fresh (by omega))
      obtain ⟨hle, hresumable, hend, -⟩ := handlePack_resume hwhole (fun _ => hzero)
        (fun _ => hzero.le.trans (Nat.zero_le _)) (by omega) ht
      exact ⟨by omega, hresumable, hend.imp_left fun h0 => h0.le.trans (Nat.zero_le _)⟩
  · rw [if_neg hwhole] at ht
    obtain rfl := Option.some.inj ht
    have hfresh : st.respHeaderOffset < AMCRespHeader.size := by omega
    refine ⟨by dsimp only; omega, ⟨fun _ => ?_, fun h32 => absurd h32 hwhole,
      fun h32 => absurd h32 hwhole, fun h32 => absurd h32 hwhole⟩, .inl (by dsimp only; omega)⟩
    exact hpayload.trans (h.fresh hfresh)

theorem fillPayload_ne_refuse (d : Delivery UInt8) (left pos : Nat) (pHeader : AMCRespHeader)
    (bodyformat : BitVec 32) (st st' : RecvState) :
    fillPayload d left pos pHeader bodyformat st ≠ .refuse st' := by
  unfold fillPayload
  dsimp only
  split
  · split <;> exact Pass.noConfusion
  · split
    · exact Pass.noConfusion
    · split <;> exact Pass.noConfusion

/-- The state behind a wrong begin marker: no payload has been counted for it. -/
theorem recvPass_refused {d : Delivery UInt8} {pos : Nat} {st st'' : RecvState} (h : Resumable st)
    (hpass : recvPass d pos st = .refuse st'') : Resumable st'' := by
  obtain ⟨n, st', hn, hoff, hpayload, hsame, heq⟩ := recvPass_eq d pos st
  rw [heq] at hpass
  split at hpass
  · rename_i hwhole
    by_cases hbegin : st'.pHeader.begin = HEADER_BEGIN
    · unfold handlePack at hpass
      dsimp only at hpass
      split at hpass
      · rename_i hwrong
        exact absurd hbegin hwrong
      · split at hpass <;> exact absurd hpass (fillPayload_ne_refuse _ _ _ _ _ _ _)
    · have hrefuse : handlePack d (d.bytes.length - pos) (pos + n) st' =
          .refuse { st' with respPayload := none, respHeaderOffset := 0 } := if_pos hbegin
      obtain rfl := Pass.refuse.inj (hrefuse.symm.trans hpass)
      refine ⟨fun _ => ?_, fun h32 => ?_, fun h32 => ?_, fun h32 => ?_⟩
      · refine hpayload.trans ?_
        by_cases hn0 : n = 0
        · rw [hsame hn0] at hwhole hbegin
          exact absurd (h.begin hwhole) hbegin
        · exact h.fresh (by omega)
      · cases h32
      · cases h32
      · cases h32
  · cases hpass

theorem recvPass_stuck {d : Delivery UInt8} {pos : Nat} {st : RecvState}
    (h : AMCRespHeader.size < st.respHeaderOffset) : recvPass d pos st = .next pos st := by
  obtain ⟨n, st', hn, hoff, -, hsame, hpass⟩ := recvPass_eq d pos st
  have hn0 : n = 0 := by omega
  rw [hpass, hsame hn0, if_neg (Nat.ne_of_gt h), hn0, Nat.add_zero]

theorem recvLoop_resumable {d : Delivery UInt8} {fuel : Nat} :
    ∀ {pos : Nat} {st : RecvState} {r : RecvResult}, Resumable st →
      recvLoop d fuel pos st = some r → Resumable r.st := by
  induction fuel with
  | zero =>
    intro pos st r _ hr
    cases hr
  | succ fuel ih =>
    intro pos st r h hr
    rw [recvLoop] at hr
    by_cases hend : d.bytes.length ≤ pos
    · rw [if_pos hend] at hr
      obtain rfl := Option.some.inj hr
      exact h
    rw [if_neg hend] at hr
    by_cases hho : st.respHeaderOffset ≤ AMCRespHeader.size
    · have hresume {t : Nat × RecvState} (ht : (recvPass d pos st).resume = some t) :
          Resumable t.2 := (recvPass_resume h hho (Nat.lt_of_not_le hend) ht).2.1
      cases hpass : recvPass d pos st with
      | next pos' st' =>
        rw [hpass] at hr hresume
        exact ih (hresume rfl) hr
      | refuse st' =>
        rw [hpass] at hr
        obtain rfl := Option.some.inj hr
        exact recvPass_refused h hpass
      | fault =>
        rw [hpass] at hr
        cases hr
      | callback pos' st' call =>
        rw [hpass] at hr hresume
        obtain ⟨r', hr', rfl⟩ := Option.map_eq_some_iff.mp hr
        have hrest : Resumable r'.st := ih (hresume rfl) hr'
        exact hrest
    · rw [recvPass_stuck (Nat.lt_of_not_le hho)] at hr
      exact ih h hr

theorem recvEvents_resumable {fuel : Nat} (ds : List (Delivery UInt8)) :
    ∀ {st : RecvState} {s : RecvState × List Callback}, Resumable st →
      recvEvents fuel st ds = some s → Resumable s.1 := by
  induction ds with
  | nil =>
    intro st s h hs
    obtain rfl := Option.some.inj hs
    exact h
  | cons d ds ih =>
    intro st s h hs
    obtain ⟨r, hr, hs⟩ := Option.bind_eq_some_iff.mp hs
    obtain ⟨s', hs', rfl⟩ := Option.map_eq_some_iff.mp hs
    have hrest : Resumable s'.1 := ih (recvLoop_resumable h hr) hs'
    exact hrest

theorem resumable_new (buf : List UInt8) : Resumable (.new buf) :=
  resumable_restart ⟨buf, 0, none, 0⟩

/-- After any events the loop of the next one ends, and moves on in every pass, exactly when
the chunk is empty or no more of a response has come than the header of version 1. -/
theorem recvEvent_halts_iff {fuel : Nat} {buf : List UInt8} {ds : List (Delivery UInt8)}
    {st : RecvState} {calls : List Callback}
    (hrun : recvEvents fuel (.new buf) ds = some (st, calls)) (d : Delivery UInt8) :
    (Halts (nextPass d) (0, st) ∧ Always (nextPass d) (Advances d) (0, st)) ↔
      d.bytes = [] ∨ st.respHeaderOffset ≤ AMCRespHeader.size := by
  have h := recvEvents_resumable ds (resumable_new buf) hrun
  constructor
  · rintro ⟨hhalts, -⟩
    by_contra hcond
    rw [not_or, Nat.not_le] at hcond
    refine not_halts_of_fixed ?_ hhalts
    have hne : ¬ d.bytes.length ≤ 0 := fun hle =>
      hcond.1 (List.length_eq_zero_iff.mp (Nat.le_zero.mp hle))
    rw [nextPass, if_neg hne, recvPass_stuck hcond.2]
    rfl
  · intro hcond
    have hall : Always (nextPass d) (fun s => Resumable s.2 ∧
        (s.2.respHeaderOffset ≤ AMCRespHeader.size ∨ d.bytes.length ≤ s.1)) (0, st) := by
      refine always_of_step (fun {s t} hs ht => ?_) ⟨h, ?_⟩
      · obtain ⟨hmore, ht⟩ := Option.ite_none_left_eq_some.mp ht
        have hho := hs.2.resolve_right hmore
        exact (recvPass_resume hs.1 hho (Nat.lt_of_not_le hmore) ht).2
      · rcases hcond with hnil | hho
        · exact .inr (by rw [hnil]; exact Nat.le_refl 0)
        · exact .inl hho
    have hadvances : Always (nextPass d) (Advances d) (0, st) := by
      refine hall.imp fun s hs t ht => ?_
      obtain ⟨hmore, ht⟩ := Option.ite_none_left_eq_some.mp ht
      exact (recvPass_resume hs.1 (hs.2.resolve_right hmore) (Nat.lt_of_not_le hmore) ht).1
    refine ⟨?_, hadvances⟩
    refine @halts_of_decreasing _ _ _ (fun s => d.bytes.length - s.1) (hadvances.imp fun s hs t ht => ?_)
    have hlt := hs t ht
    obtain ⟨hmore, -⟩ := Option.ite_none_left_eq_some.mp ht
    omega

/-- A response with a body of eight bytes. -/
def eightByteResponse : Response where
  funcid := 1002
  retCode := 0
  requestId := 1
  data := some (List.replicate 8 7)
  ts := ⟨1, 0⟩
  funcid_le := Nat.le_of_ble_eq_true rfl
  data_lt := Nat.le_of_ble_eq_true rfl

/-- The response in a packet of the newer layout. -/
def eightBytePack : List UInt8 := Response.pack HEADER_JSON_VERSION (eightByteResponse, ⟨0, 0, 0⟩)

/-- The packet is cut inside the header of version 1. -/
theorem recvEvent_halts_iff_eightBytes : ∃ st,
    recvEvents 2 (.new (List.replicate AMCRespHeaderV2.size 0))
      [⟨eightBytePack.take 20, fun _ => 0⟩] = some (st, []) ∧
    Halts (nextPass ⟨eightBytePack.drop 20, fun _ => 0⟩) (0, st) := by
  have hrun : (recvEvents 2 (.new (List.replicate AMCRespHeaderV2.size 0))
      [⟨eightBytePack.take 20, fun _ => 0⟩]).map
        (fun s => (s.1.respHeaderOffset, s.2)) = some (20, []) := by decide
  obtain ⟨⟨st, calls⟩, hst, heq⟩ := Option.map_eq_some_iff.mp hrun
  obtain ⟨hho, rfl⟩ := Prod.mk.inj heq
  have hle : st.respHeaderOffset ≤ AMCRespHeader.size := hho.le.trans (by decide)
  exact ⟨st, hst, ((recvEvent_halts_iff hst _).mpr (.inr hle)).1⟩

/-- The packet is cut in the part of the header that version 2 adds: the loop of the second
event never moves on. -/
theorem recvEvent_never_halts : ∃ st,
    recvEvents 2 (.new (List.replicate AMCRespHeaderV2.size 0))
      [⟨eightBytePack.take 36, fun _ => 0⟩] = some (st, []) ∧
    ¬ (Halts (nextPass ⟨eightBytePack.drop 36, fun _ => 0⟩) (0, st) ∧
      Always (nextPass ⟨eightBytePack.drop 36, fun _ => 0⟩)
        (Advances ⟨eightBytePack.drop 36, fun _ => 0⟩) (0, st)) := by
  have hrun : (recvEvents 2 (.new (List.replicate AMCRespHeaderV2.size 0))
      [⟨eightBytePack.take 36, fun _ => 0⟩]).map
        (fun s => (s.1.respHeaderOffset, s.2)) = some (36, []) := by decide
  obtain ⟨⟨st, calls⟩, hst, heq⟩ := Option.map_eq_some_iff.mp hrun
  obtain ⟨hho, rfl⟩ := Prod.mk.inj heq
  have hlt : AMCRespHeader.size < st.respHeaderOffset := by
    rw [show st.respHeaderOffset = 36 from hho]
    decide
  refine ⟨st, hst, fun h => not_halts_of_fixed ?_ h.1⟩
  have hmore : ¬ (eightBytePack.drop 36).length ≤ 0 := by decide
  rw [nextPass, if_neg hmore, recvPass_stuck hlt]
  rfl

end LocalsocketClient

end Hardcoder
