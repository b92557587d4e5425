import Hardcoder.ClientMisread

/-! The divisions of a response stream the client's parser survives. -/

namespace Hardcoder
open LittleEndian Stream
set_option autoImplicit false

namespace LocalsocketClient

theorem forall₂_of_append {α β : Type} {R : α → β → Prop} {xs xs' : List α} {ys ys' : List β}
    (h : List.Forall₂ R xs ys) (hall : List.Forall₂ R (xs ++ xs') (ys ++ ys')) :
    List.Forall₂ R xs' ys' := by
  induction h with
  | nil => exact hall
  | cons _ _ ih => exact ih (List.forall₂_cons.mp hall).2

theorem UnservedFrom.prepend {c : List UInt8} {cs : List (List UInt8)} {rs₁ rs : List Response}
    {pos pos' n : Nat} {st st' : RecvState} {calls : List Callback}
    (h : UnservedFrom c pos' rs st' cs) (hcalls : List.Forall₂ Called rs₁ calls)
    (hrun : ∀ beyond fuel, recvLoop ⟨c, beyond⟩ (fuel + n) pos st =
      (recvLoop ⟨c, beyond⟩ fuel pos' st').map fun r => { r with calls := calls ++ r.calls }) :
    UnservedFrom c pos (rs₁ ++ rs) st cs := by
  obtain ⟨b, ds, hds, hnone⟩ := h
  refine ⟨b, ds, hds, fun fuel res s hres hs hall => ?_⟩
  have hmono := recvLoop_mono _ (Nat.le_add_right fuel n) hres
  rw [hrun] at hmono
  obtain ⟨res', hres', rfl⟩ := Option.map_eq_some_iff.mp hmono
  rw [List.append_assoc] at hall
  exact hnone fuel res' s hres' hs (forall₂_of_append hcalls hall)

theorem Unserved.after {c : List UInt8} {cs : List (List UInt8)} {rs₁ rs : List Response} {n : Nat}
    {st st' : RecvState} {calls : List Callback} (h : Unserved rs st' cs)
    (hcalls : List.Forall₂ Called rs₁ calls)
    (hrun : ∀ beyond, recvEvent n st ⟨c, beyond⟩ = some ⟨0, st', calls⟩) :
    Unserved (rs₁ ++ rs) st (c :: cs) := by
  obtain ⟨ds, hds, hnone⟩ := h
  refine ⟨⟨c, fun _ => 0⟩ :: ds, by rw [List.map_cons, hds], fun fuel s hs hall => ?_⟩
  obtain ⟨res, hres, hs⟩ := Option.bind_eq_some_iff.mp hs
  obtain ⟨s', hs', rfl⟩ := Option.map_eq_some_iff.mp hs
  have hone := recvLoop_mono _ (Nat.le_add_right fuel n) hres
  have htwo := recvLoop_mono _ (Nat.le_add_left n fuel) (hrun fun _ => 0)
  obtain rfl := Option.some.inj (hone.symm.trans htwo)
  exact hnone fuel s' hs' (forall₂_of_append hcalls hall)

/-- The response as it is sent from a block that held zeros. -/
abbrev sent₀ (r : Response) : Sent := (r, ⟨0, 0, 0⟩)

theorem wire_sent₀ (v : BitVec 16) (rs : List Response) :
    wire (Response.pack v) (rs.map sent₀) = wire (pack₀ v) rs := by
  simp only [wire, List.map_map]
  rfl

theorem map_sent₀ (rs : List Response) : (rs.map sent₀).map Prod.fst = rs := by
  simp [Function.comp_def]

theorem recvPass_bad {v : BitVec 16} {st : RecvState} {part tail got lost c : List UInt8} {pos : Nat}
    (h : Holds st part) (r : Response) (later : List Response) (hpos : pos ≤ c.length)
    (hhead : part ++ tail = (r.header v).encode) (ht : c.drop pos = tail ++ got)
    (hlost : got ++ lost = Response.extension v ⟨0, 0, 0⟩ ++ r.body) (hne : lost ≠ [])
    (hpart : part.length = AMCRespHeader.size → HEADER_JSON_VERSION ≤ v)
    (hbody : HEADER_JSON_VERSION ≤ v → r.body ≠ [])
    (hbad : badCut v r later (AMCRespHeader.size + got.length)) :
    ∃ b, Misled r (recvPass ⟨c, fun _ => b⟩ pos st) := by
  have hdec : AMCRespHeader.decode (r.header v).encode = r.header v := (r.header v).decode_encode
  have hlen := congrArg List.length hhead
  have hsum := congrArg List.length hlost
  have hlostpos : 0 < lost.length := List.length_pos_iff.mpr hne
  rw [List.length_append, AMCRespHeader.length_encode] at hlen
  rw [List.length_append, List.length_append] at hsum
  obtain ⟨b, hb⟩ := exists_ne r.body[got.length - (extensionOf (r.header v) got).length]?
  refine ⟨b, recvPass_overread h hhead (r.header v).length_encode ⟨c, fun _ => b⟩ hpos ht
    (by rw [hdec]; rfl) (by rw [hdec]) r ?_ hb⟩
  rw [hdec, r.header_bodylen]
  by_cases hjson : HEADER_JSON_VERSION ≤ v
  · have hext : (Response.extension v ⟨0, 0, 0⟩).length = 20 := by
      rw [Response.extension, if_pos hjson]
      rfl
    have hgot : (extensionOf (r.header v) got).length = min 20 got.length := by
      rw [extensionOf, Response.header_version, if_pos hjson, List.length_take]
      rfl
    have hleft : staleLeft (r.header v) tail got = got.length := by
      rw [staleLeft, Response.header_version, if_pos hjson]
    rw [badCut, if_pos hjson, if_neg (hbody hjson)] at hbad
    have hbpos : 0 < r.body.length := List.length_pos_iff.mpr (hbody hjson)
    rw [hgot, hleft]
    omega
  · have hext : (Response.extension v ⟨0, 0, 0⟩).length = 0 := by
      rw [Response.extension, if_neg hjson, List.length_nil]
    have hgot : (extensionOf (r.header v) got).length = 0 := by
      rw [extensionOf, Response.header_version, if_neg hjson, List.length_nil]
    have hleft : staleLeft (r.header v) tail got = tail.length + got.length := by
      rw [staleLeft, Response.header_version, if_neg hjson]
    have htail : part.length ≠ AMCRespHeader.size := fun heq => hjson (hpart heq)
    rw [hgot, hleft]
    omega

section Frames
variable {v : BitVec 16} (hv : HEADER_PROTOCAL_VERSION ≤ v)
include hv

theorem unserved_of_bad {st : RecvState} {part c part' : List UInt8} {cs : List (List UInt8)}
    {done later : List Response} {r : Response} (h : Holds st part)
    (hpend : ∀ q ∈ (done ++ r :: later).head?, Pending v part (sent₀ q))
    (hsplit : part ++ c = wire (pack₀ v) done ++ part')
    (hbegun : Begun (pack₀ v) part' (r :: later))
    (heq : part' ++ cs.flatten = wire (pack₀ v) (r :: later))
    (hbad : badCut v r later part'.length) : UnservedFrom c 0 (done ++ r :: later) st cs := by
  obtain ⟨q, hq⟩ : ∃ q, q ∈ (done ++ r :: later).head? := by
    cases done with
    | nil => exact ⟨r, rfl⟩
    | cons q done => exact ⟨q, rfl⟩
  have hfirst := hpend q hq
  have hhead : ∀ p ∈ (done.map sent₀).head?, part.length < (Response.pack v p).length := by
    intro p hp
    cases done with
    | nil => cases hp
    | cons q' done =>
      obtain rfl := Option.some.inj hp
      exact (hpend q' rfl).lt
  obtain ⟨pos, st₁, part₁, calls, hst₁, hpos, hpart₁, hstart, hxs, hcalls, hrun⟩ :=
    recvLoop_done hv (done.map sent₀) h (Nat.zero_le _) hfirst.le hhead
      (by rw [wire_sent₀]; exact hsplit)
  rw [map_sent₀] at hcalls
  refine UnservedFrom.prepend ?_ hcalls hrun
  have hge : AMCRespHeader.size ≤ part'.length := by
    unfold badCut at hbad
    split at hbad
    · split at hbad <;> omega
    · exact hbad
  obtain ⟨hlt, lost, hlost⟩ := hbegun
  have hencle : (r.header v).encode.length ≤ part'.length := by
    rwa [AMCRespHeader.length_encode]
  have hpack : pack₀ v r = (r.header v).encode ++ (Response.extension v ⟨0, 0, 0⟩ ++ r.body) :=
    Response.pack_eq hv (sent₀ r)
  rw [hpack] at hlost
  obtain ⟨got, rfl⟩ : (r.header v).encode <+: part' :=
    List.prefix_of_prefix_length_le (List.prefix_append _ _) ⟨lost, hlost⟩ hencle
  rw [List.append_assoc, List.append_cancel_left_eq] at hlost
  have hne : lost ≠ [] := by
    rintro rfl
    rw [List.append_nil] at hlost
    rw [hpack, ← hlost] at hlt
    exact Nat.lt_irrefl _ hlt
  have hmore : pos < c.length := by
    by_contra hend
    rw [List.drop_eq_nil_of_le (Nat.le_of_not_lt hend), List.append_nil] at hxs
    rcases hstart with hnil | ⟨rfl, rfl⟩
    · have hsum := congrArg List.length hxs
      rw [hnil, List.length_nil] at hsum
      exact absurd (hsum ▸ hge) (by decide)
    · -- an empty chunk: the cut was there before
      have hnil : c = [] := List.length_eq_zero_iff.mp (Nat.le_zero.mp (Nat.le_of_not_lt hend))
      rw [hnil, List.append_nil, hxs] at hsplit
      have hdone : done = [] := by
        cases done with
        | nil => rfl
        | cons q' done =>
          have hsum := congrArg List.length hsplit
          have hbig := (sent₀ q').1.size_le v
          rw [← Response.length_pack hv (sent₀ q')] at hbig
          simp only [wire_cons, List.length_append, AMCRespHeader.length_encode] at hsum
          have hpos' : AMCRespHeader.size ≤ (pack₀ v q').length := hbig
          unfold AMCRespHeader.size at hpos' hpart₁ hsum
          omega
      subst hdone
      have hgood := (hpend r rfl).not_badCut hv later
      rw [hxs] at hgood
      exact hgood.2 hbad
  have hpart : part₁.length = AMCRespHeader.size → HEADER_JSON_VERSION ≤ v := by
    intro h32
    rcases hstart with rfl | ⟨-, rfl⟩
    · exact absurd h32 (by decide)
    · exact (hfirst.whole h32).1
  by_cases hstray : HEADER_JSON_VERSION ≤ v ∧ r.body = []
  · obtain ⟨hjson, hnil⟩ := hstray
    obtain ⟨st', call, hpass, hcall, hst'⟩ :=
      recvPass_early hv hst₁ hpart₁ hpos (sent₀ r) hnil hxs hlost
    have hlater : later ≠ [] := by
      rw [badCut, if_pos hjson, if_pos hnil] at hbad
      exact hbad.2
    obtain ⟨q', later, rfl⟩ := List.exists_cons_of_ne_nil hlater
    have hext : Response.extension v ⟨0, 0, 0⟩ =
        [52, 0, 0, 0, 3, 0, 0, 0, 0, 0, 0, 0, 0, 0, 0, 0, 0, 0, 0, 0] := by
      rw [Response.extension, if_pos hjson]
      decide
    rw [hnil, List.append_nil, hext] at hlost
    have hrest : cs.flatten = lost ++ wire (pack₀ v) (q' :: later) := by
      rw [wire_cons, hpack, hnil, hext, List.append_nil, ← hlost] at heq
      simpa [List.append_assoc] using heq
    refine (Unserved.done ?_ (Nat.le_refl _)).callback hmore fun b => hpass _
    refine stray_unserved hjson ?_ ?_ hne cs hst' (by decide) hrest
    · have hsum := congrArg List.length hlost
      rw [List.length_append] at hsum
      simp only [List.length_cons, List.length_nil] at hsum
      omega
    · intro hmark
      have hmem : (0x52 : UInt8) ∈ got ++ lost :=
        List.mem_append_right _ (List.mem_of_mem_head? hmark)
      rw [hlost] at hmem
      exact absurd hmem (by decide)
  · obtain ⟨tail, htail, -⟩ := pack_split hv (p := sent₀ r) hpart₁
      (t := c.drop pos ++ lost) (by
        rw [← List.append_assoc, hxs, List.append_assoc, hlost, List.append_nil]
        exact hpack.symm)
    have ht : c.drop pos = tail ++ got := by
      rw [← htail, List.append_assoc] at hxs
      exact List.append_cancel_left hxs
    rw [List.length_append, AMCRespHeader.length_encode] at hbad
    obtain ⟨b, hmis⟩ := recvPass_bad hst₁ r later hpos htail ht hlost hne hpart
      (fun hjson hnil => hstray ⟨hjson, hnil⟩) hbad
    exact hmis.unserved hmore

theorem unserved_of_cut (cs : List (List UInt8)) :
    ∀ {st : RecvState} {part : List UInt8} {rs : List Response}, Holds st part →
      (∀ r ∈ rs.head?, Pending v part (sent₀ r)) → part ++ cs.flatten = wire (pack₀ v) rs →
      ¬ NoCut (Response.size v) (badCut v) part.length rs (cs.map List.length) →
      Unserved rs st cs := by
  induction cs with
  | nil =>
    intro st part rs _ hpend _ hcut
    refine absurd (NoCut.nil fun r later hrs => ?_) hcut
    exact (hpend r (by rw [hrs]; rfl)).not_badCut hv later
  | cons c cs ih =>
    intro st part rs h hpend heq hcut
    rw [List.flatten_cons, ← List.append_assoc] at heq
    have hstart : ∀ r later, rs = r :: later →
        part.length < r.size v ∧ ¬ badCut v r later part.length := fun r later hrs =>
      (hpend r (by rw [hrs]; rfl)).not_badCut hv later
    by_cases hempty : c = []
    · rw [hempty, List.append_nil] at heq
      have hnone : part.length + c.length =
          (List.map (Response.size v) []).sum + part.length := by
        simp [hempty]
      have hfirst : ∀ r later, [] ++ rs = r :: later →
          part.length < r.size v ∧ ¬ badCut v r later part.length := hstart
      have hrest := ih h hpend heq fun hnc => hcut (NoCut.cons hfirst hnone hnc)
      refine Unserved.after (n := 1) hrest .nil fun beyond => ?_
      rw [recvEvent, recvLoop, if_pos (by simp [hempty])]
    obtain ⟨done, rest, part', rfl, hsplit, hbegun⟩ := exists_cut (pack₀ v) heq
    have hlen : part.length + c.length = (done.map (Response.size v)).sum + part'.length := by
      have hsize : (fun r => (pack₀ v r).length) = Response.size v :=
        funext fun r => Response.length_pack hv (sent₀ r)
      simpa [length_wire, hsize] using congrArg List.length hsplit
    rw [hsplit, wire_append, List.append_assoc, List.append_cancel_left_eq] at heq
    by_cases hbad : ∃ r later, rest = r :: later ∧ badCut v r later part'.length
    · obtain ⟨r, later, rfl, hbad⟩ := hbad
      exact (unserved_of_bad hv h hpend hsplit hbegun heq hbad).event
    have hnext : ¬ NoCut (Response.size v) (badCut v) part'.length rest (cs.map List.length) :=
      fun hnc => hcut (NoCut.cons hstart hlen hnc)
    have hbegun' : Begun (Response.pack v) part' (rest.map sent₀) := by
      cases rest with
      | nil => exact hbegun
      | cons r later => exact hbegun
    rcases recvEvent_good hv h hempty (by
        intro p hp
        rw [← List.map_append, List.head?_map] at hp
        obtain ⟨r, hr, rfl⟩ := Option.map_eq_some_iff.mp hp
        exact hpend r hr) (by rw [wire_sent₀]; exact hsplit) hbegun' (by
        intro p later hrest hp
        cases rest with
        | nil => cases hrest
        | cons r later' =>
          obtain ⟨rfl, rfl⟩ := List.cons.inj hrest
          rw [map_sent₀] at hp
          exact hbad ⟨r, later', rfl, hp⟩) with
      ⟨st', calls, hst', hpend', hcalls, hrun⟩ |
      ⟨p, st', calls, hjson, hone, hnil, -, -, -, -⟩
    · rw [map_sent₀] at hcalls
      refine Unserved.after (ih hst' (fun r hr => hpend' _ ?_) heq hnext) hcalls hrun
      rw [List.head?_map, Option.mem_def.mp hr]
      rfl
    · -- the last packet has an empty body: no cut is bad any more
      refine absurd (fun lens₁ lens₂ fs₁ f fs₂ n _ hfs _ _ hb => ?_) hnext
      have hrest : rest = [p.1] := by
        have hmap := congrArg (List.map Prod.fst) hone
        rwa [map_sent₀] at hmap
      rw [hrest] at hfs
      obtain ⟨rfl, rfl, rfl⟩ : fs₁ = [] ∧ f = p.1 ∧ fs₂ = [] := by
        cases fs₁ with
        | nil =>
          obtain ⟨h1, h2⟩ := List.cons.inj hfs
          exact ⟨rfl, h1.symm, h2.symm⟩
        | cons g fs₁ => simp at hfs
      rw [badCut, if_pos hjson, if_pos hnil] at hb
      exact hb.2 rfl

end Frames

/-- Responses reach `onCallback` exactly, whatever the heap blocks held and whatever
lies behind the chunks in memory, just when no chunk ends badly: with a version 1
header, at its end or inside the body; with a version 2 header, inside the packet
behind its first `sizeof(AMCRespHeader)` bytes, and there already if the body is
empty and another packet follows. An empty body of the last packet may be cut. -/
theorem clientFraming_iff_noCut {v : BitVec 16} (hv : HEADER_PROTOCAL_VERSION ≤ v)
    (rs : List Response) (lens : List Nat) (hlens : lens.sum = (rs.map (Response.size v)).sum) :
    (∀ (buf : List UInt8) (ps : List Sent) (ds : List (Delivery UInt8)),
      buf.length = AMCRespHeaderV2.size → ps.map Prod.fst = rs → ds.map (·.bytes.length) = lens →
      (ds.map (·.bytes)).flatten = wire (Response.pack v) ps → ClientFramed rs (.new buf) ds) ↔
    NoCut (Response.size v) (badCut v) 0 rs lens := by
  constructor
  · intro h
    by_contra hcut
    have hlen : lens.sum = (wire (pack₀ v) rs).length := by
      have hsize : (fun r => (pack₀ v r).length) = Response.size v :=
        funext fun r => Response.length_pack hv (sent₀ r)
      rw [hlens, length_wire, hsize]
    obtain ⟨cs, hcs, hflat⟩ := exists_chunks lens hlen
    have hbuf : (List.replicate AMCRespHeaderV2.size (0 : UInt8)).length = AMCRespHeaderV2.size :=
      List.length_replicate
    rw [← hcs] at hcut
    obtain ⟨ds, rfl, hnone⟩ := unserved_of_cut hv cs (holds_new hbuf)
      (fun r _ => pending_nil hv (sent₀ r)) hflat hcut
    rw [List.map_map] at hcs
    obtain ⟨fuel, s, hs, hall⟩ := h _ (rs.map sent₀) ds hbuf (map_sent₀ rs) hcs
      (by rw [wire_sent₀]; exact hflat)
    exact hnone fuel s hs hall
  · rintro hcut buf ps ds hbuf rfl rfl hflat
    exact recvEvents_framed hv ds (holds_new hbuf) (fun p _ => pending_nil hv p) hflat hcut.comap

/-- A response with a body of one byte. -/
def oneByteResponse : Response where
  funcid := 1002
  retCode := 0
  requestId := 1
  data := some [7]
  ts := ⟨1, 0⟩
  funcid_le := by decide
  data_lt := by decide

theorem clientFraming_iff_noCut_oneByte :
    (∀ (buf : List UInt8) (ps : List Sent) (ds : List (Delivery UInt8)),
      buf.length = AMCRespHeaderV2.size → ps.map Prod.fst = [oneByteResponse] →
      ds.map (·.bytes.length) = [32, 21] →
      (ds.map (·.bytes)).flatten = wire (Response.pack HEADER_JSON_VERSION) ps →
      ClientFramed [oneByteResponse] (.new buf) ds) ↔
    NoCut (Response.size HEADER_JSON_VERSION) (badCut HEADER_JSON_VERSION) 0 [oneByteResponse]
      [32, 21] :=
  clientFraming_iff_noCut (by decide) [oneByteResponse] [32, 21] (by decide)

/-- Version 4, the header in one chunk and the body in the next: the first event copies
a zero from behind its chunk as the body and calls back with that. -/
theorem clientFraming_header_then_body :
    (oneByteResponse.header HEADER_PROTOCAL_VERSION).encode ++ [7] =
      wire (Response.pack HEADER_PROTOCAL_VERSION) [(oneByteResponse, ⟨0, 0, 0⟩)] ∧
    ¬ ClientFramed [oneByteResponse] (.new (List.replicate AMCRespHeaderV2.size 0))
      [⟨(oneByteResponse.header HEADER_PROTOCAL_VERSION).encode, fun _ => 0⟩,
        ⟨[7], fun _ => 0⟩] := by
  refine ⟨by decide, ?_⟩
  rintro ⟨fuel, s, hs, hall⟩
  have hrun : (recvEvents 3 (.new (List.replicate AMCRespHeaderV2.size 0))
      [⟨(oneByteResponse.header HEADER_PROTOCAL_VERSION).encode, fun _ => 0⟩,
        ⟨[7], fun _ => 0⟩]).map (fun s => s.2.map (·.data)) = some [some [0]] := by decide
  obtain ⟨s', hs', hdata⟩ := Option.map_eq_some_iff.mp hrun
  have hone := recvEvents_mono (Nat.le_add_right fuel 3) _ hs
  have htwo := recvEvents_mono (Nat.le_add_left 3 fuel) _ hs'
  obtain rfl := Option.some.inj (hone.symm.trans htwo)
  obtain ⟨call, calls, hcall, -, hcons⟩ := List.forall₂_cons_left_iff.mp hall
  rw [hcons] at hdata
  have hfirst : call.data = some [0] := (List.cons.inj hdata).1
  have hbody := hcall.data
  rw [hfirst] at hbody
  exact absurd hbody (by decide)

end LocalsocketClient

end Hardcoder
