import Mathlib.Tactic.IntervalCases
import Hardcoder.ClientFraming

/-! Cuts that mislead the client's parser. Behind a bad cut it copies bytes that are
not the body's, or loses its place in the stream; with cleared heap blocks and the
right bytes behind a chunk it never finds the packets again. -/

namespace Hardcoder
open LittleEndian Stream
set_option autoImplicit false

namespace LocalsocketClient

/-- The header is done with, and bytes that are not the body's are part of the payload. -/
structure Doomed (r : Response) (st : RecvState) : Prop where
  offset : AMCRespHeader.size ≤ st.respHeaderOffset
  proto : st.respHeaderOffset = AMCRespHeader.size →
    (AMCRespHeader.decode st.respHeaderBuf).begin = HEADER_BEGIN ∧
      ¬ HEADER_JSON_VERSION ≤ (AMCRespHeader.decode st.respHeaderBuf).version
  payload : ∃ p, st.respPayload = some p ∧ ¬ p <+: r.body

/-- A pass that does not bring the call for `r` and rules it out. -/
inductive Misled (r : Response) : Pass → Prop where
  | fault : Misled r .fault
  | next {pos : Nat} {st : RecvState} (h : Doomed r st) : Misled r (.next pos st)
  | callback {pos : Nat} {st : RecvState} {call : Callback} (h : ¬ Called r call) :
      Misled r (.callback pos st call)

theorem not_called_of_other_begin {r : Response} {call : Callback} {p : List UInt8}
    (hdata : call.data = some p) (hp : ¬ p <+: r.body) : ¬ Called r call := by
  intro h
  apply hp
  have hbody := h.data
  rw [hdata, Option.getD_some] at hbody
  exact ⟨[], by rw [hbody, List.append_nil]⟩

theorem Doomed.fillPayload {r : Response} {st : RecvState} (h : Doomed r st)
    (hoff : st.respHeaderOffset = AMCRespHeader.size) (d : Delivery UInt8) (left pos : Nat)
    (pHeader : AMCRespHeader) (bodyformat : BitVec 32) :
    Misled r (fillPayload d left pos pHeader bodyformat st) := by
  obtain ⟨p, hp, hnot⟩ := h.payload
  have hmore (xs : List UInt8) : ¬ p ++ xs <+: r.body :=
    fun hpre => hnot ((List.prefix_append p xs).trans hpre)
  simp only [LocalsocketClient.fillPayload, hp, Option.getD_some]
  split
  · split
    · exact .callback (not_called_of_other_begin rfl hnot)
    · exact .next h
  · split
    · exact .fault
    · split
      · exact .callback (not_called_of_other_begin rfl (hmore _))
      · exact .next ⟨h.offset, fun _ => h.proto hoff, _, rfl, hmore _⟩

theorem Doomed.pass {r : Response} {st : RecvState} (h : Doomed r st) (d : Delivery UInt8)
    (pos : Nat) : Misled r (recvPass d pos st) := by
  have hge := h.offset
  simp only [recvPass, if_neg (Nat.not_lt.mpr hge)]
  split
  · obtain ⟨hbegin, hproto⟩ := h.proto ‹_›
    simp only [handlePack, hbegin, ne_eq, not_true, if_false, if_neg hproto]
    exact h.fillPayload ‹_› _ _ _ _ _
  · exact .next h

/-- The calls made, and the state left, when the call for `r` cannot come any more. -/
def Lost (r : Response) (st : RecvState) (calls : List Callback) : Prop :=
  (calls = [] ∧ Doomed r st) ∨ ∃ call later, calls = call :: later ∧ ¬ Called r call

theorem Doomed.loop {r : Response} {d : Delivery UInt8} {fuel : Nat} :
    ∀ {pos : Nat} {st : RecvState} {res : RecvResult}, Doomed r st →
      recvLoop d fuel pos st = some res → Lost r res.st res.calls := by
  induction fuel with
  | zero =>
    intro pos st res _ hrun
    simp [recvLoop] at hrun
  | succ fuel ih =>
    intro pos st res h hrun
    rw [recvLoop] at hrun
    split at hrun
    · obtain rfl := Option.some.inj hrun
      exact .inl ⟨rfl, h⟩
    · have hpass := h.pass d pos
      generalize recvPass d pos st = out at hrun hpass
      cases hpass with
      | fault => cases hrun
      | next h' => exact ih h' hrun
      | callback hcall =>
        obtain ⟨res', -, rfl⟩ := Option.map_eq_some_iff.mp hrun
        exact .inr ⟨_, _, rfl, hcall⟩

theorem Lost.not_framed {r : Response} {st : RecvState} {calls : List Callback}
    (h : Lost r st calls) (rs : List Response) : ¬ List.Forall₂ Called (r :: rs) calls := by
  intro hall
  obtain ⟨call, later, hcall, -, heq⟩ := List.forall₂_cons_left_iff.mp hall
  rcases h with ⟨hnil, -⟩ | ⟨call', later', hcons, hwrong⟩
  · rw [hnil] at heq
    cases heq
  · rw [hcons] at heq
    exact hwrong ((List.cons.inj heq).1 ▸ hcall)

theorem Lost.append {r : Response} {st st' : RecvState} {calls calls' : List Callback}
    (h : Lost r st calls) (h' : Doomed r st → Lost r st' calls') :
    Lost r st' (calls ++ calls') := by
  rcases h with ⟨rfl, hst⟩ | ⟨call, later, rfl, hwrong⟩
  · exact h' hst
  · exact .inr ⟨call, later ++ calls', rfl, hwrong⟩

theorem Doomed.events {r : Response} {fuel : Nat} (ds : List (Delivery UInt8)) :
    ∀ {st : RecvState} {s : RecvState × List Callback}, Doomed r st →
      recvEvents fuel st ds = some s → Lost r s.1 s.2 := by
  induction ds with
  | nil =>
    intro st s h hrun
    obtain rfl := Option.some.inj hrun
    exact .inl ⟨rfl, h⟩
  | cons d ds ih =>
    intro st s h hrun
    obtain ⟨res, hres, hrun⟩ := Option.bind_eq_some_iff.mp hrun
    obtain ⟨s', hs', rfl⟩ := Option.map_eq_some_iff.mp hrun
    exact (h.loop hres).append fun hst => ih hst hs'

/-- Some memory behind the chunks `cs` keeps the calls for `rs` from being made. -/
def Unserved (rs : List Response) (st : RecvState) (cs : List (List UInt8)) : Prop :=
  ∃ ds : List (Delivery UInt8), ds.map (·.bytes) = cs ∧
    ∀ fuel s, recvEvents fuel st ds = some s → ¬ List.Forall₂ Called rs s.2

/-- The same from within the event of a chunk `c`, behind its first `pos` bytes. -/
def UnservedFrom (c : List UInt8) (pos : Nat) (rs : List Response) (st : RecvState)
    (cs : List (List UInt8)) : Prop :=
  ∃ (b : UInt8) (ds : List (Delivery UInt8)), ds.map (·.bytes) = cs ∧
    ∀ fuel res s, recvLoop ⟨c, fun _ => b⟩ fuel pos st = some res →
      recvEvents fuel res.st ds = some s → ¬ List.Forall₂ Called rs (res.calls ++ s.2)

section Unserved
variable {c : List UInt8} {cs : List (List UInt8)} {r : Response} {rs : List Response}
  {pos pos' : Nat} {st st' : RecvState}

theorem UnservedFrom.event (h : UnservedFrom c 0 rs st cs) : Unserved rs st (c :: cs) := by
  obtain ⟨b, ds, hds, hrun⟩ := h
  refine ⟨⟨c, fun _ => b⟩ :: ds, by rw [List.map_cons, hds], fun fuel s hs => ?_⟩
  obtain ⟨res, hres, hs⟩ := Option.bind_eq_some_iff.mp hs
  obtain ⟨s', hs', rfl⟩ := Option.map_eq_some_iff.mp hs
  exact hrun fuel res s' hres hs'

theorem Unserved.done (h : Unserved rs st cs) (hend : c.length ≤ pos) :
    UnservedFrom c pos rs st cs := by
  obtain ⟨ds, hds, hrun⟩ := h
  refine ⟨0, ds, hds, fun fuel res s hres hs => ?_⟩
  cases fuel with
  | zero => cases hres
  | succ fuel =>
    rw [recvLoop, if_pos hend] at hres
    obtain rfl := Option.some.inj hres
    exact hrun _ s hs

theorem Unserved.refuse (h : Unserved rs st' cs) (hlt : pos < c.length)
    (hpass : ∀ b, recvPass ⟨c, fun _ => b⟩ pos st = .refuse st') :
    UnservedFrom c pos rs st cs := by
  obtain ⟨ds, hds, hrun⟩ := h
  refine ⟨0, ds, hds, fun fuel res s hres hs => ?_⟩
  cases fuel with
  | zero => cases hres
  | succ fuel =>
    rw [recvLoop, if_neg (Nat.not_le.mpr hlt), hpass] at hres
    obtain rfl := Option.some.inj hres
    exact hrun _ s hs

theorem UnservedFrom.next (h : UnservedFrom c pos' rs st' cs) (hlt : pos < c.length)
    (hpass : ∀ b, recvPass ⟨c, fun _ => b⟩ pos st = .next pos' st') :
    UnservedFrom c pos rs st cs := by
  obtain ⟨b, ds, hds, hrun⟩ := h
  refine ⟨b, ds, hds, fun fuel res s hres hs => ?_⟩
  cases fuel with
  | zero => cases hres
  | succ fuel =>
    rw [recvLoop, if_neg (Nat.not_le.mpr hlt), hpass] at hres
    have hres' := recvLoop_mono _ (Nat.le_succ fuel) hres
    exact hrun _ res s hres' hs

theorem UnservedFrom.callback {call : Callback} (h : UnservedFrom c pos' rs st' cs)
    (hlt : pos < c.length)
    (hpass : ∀ b, recvPass ⟨c, fun _ => b⟩ pos st = .callback pos' st' call) :
    UnservedFrom c pos (r :: rs) st cs := by
  obtain ⟨b, ds, hds, hrun⟩ := h
  refine ⟨b, ds, hds, fun fuel res s hres hs hall => ?_⟩
  cases fuel with
  | zero => cases hres
  | succ fuel =>
    rw [recvLoop, if_neg (Nat.not_le.mpr hlt), hpass] at hres
    obtain ⟨res', hres', rfl⟩ := Option.map_eq_some_iff.mp hres
    have hmono := recvLoop_mono _ (Nat.le_succ fuel) hres'
    exact hrun _ res' s hmono hs (List.forall₂_cons.mp hall).2

theorem Misled.unserved {b : UInt8} (hlt : pos < c.length)
    (h : Misled r (recvPass ⟨c, fun _ => b⟩ pos st)) : UnservedFrom c pos (r :: rs) st cs := by
  refine ⟨b, cs.map (⟨·, fun _ => 0⟩), by simp [Function.comp_def], fun fuel res s hres hs => ?_⟩
  have hlost : Lost r res.st res.calls := by
    cases fuel with
    | zero => cases hres
    | succ fuel =>
      rw [recvLoop, if_neg (Nat.not_le.mpr hlt)] at hres
      generalize recvPass ⟨c, fun _ => b⟩ pos st = out at hres h
      cases h with
      | fault => cases hres
      | next h' => exact h'.loop hres
      | callback hcall =>
        obtain ⟨res', -, rfl⟩ := Option.map_eq_some_iff.mp hres
        exact .inr ⟨_, _, rfl, hcall⟩
  exact (hlost.append fun hst => hst.events _ hs).not_framed rs

end Unserved

theorem exists_ne (x : Option UInt8) : ∃ b, x ≠ some b := by
  cases x with
  | none => exact ⟨0, by simp⟩
  | some a => exact ⟨a + 1, by simp⟩

theorem recvPass_overread {st : RecvState} {part tail head rest ext : List UInt8} (h : Holds st part)
    (hhead : part ++ tail = head) (hlen : head.length = AMCRespHeader.size) (d : Delivery UInt8)
    {pos : Nat} (hpos : pos ≤ d.bytes.length) (ht : d.bytes.drop pos = tail ++ rest)
    (hbegin : (AMCRespHeader.decode head).begin = HEADER_BEGIN)
    (hext : ext = extensionOf (.decode head) rest) (r : Response)
    (hmore : rest.length - ext.length <
      min (AMCRespHeader.decode head).bodylen.toNat (staleLeft (.decode head) tail rest))
    (hbyte : r.body[rest.length - ext.length]? ≠ some (d.beyond 0)) :
    Misled r (recvPass d pos st) := by
  obtain ⟨hst, hpass⟩ := recvPass_accept h hhead hlen d ht hbegin hext rfl
  have hsum := congrArg List.length ht
  rw [List.length_append, List.length_drop] at hsum
  have hextle : ext.length ≤ rest.length := by
    rw [hext, extensionOf]
    split
    · rw [List.length_take]
      omega
    · exact Nat.zero_le _
  have havail : d.bytes.length - (pos + tail.length + ext.length) = rest.length - ext.length := by
    omega
  have hnot {n : Nat} (hn : rest.length - ext.length < n) :
      ¬ d.read (pos + tail.length + ext.length) n <+: r.body :=
    d.read_not_front (by omega) (by omega) (by rwa [havail])
  have hbody : (AMCRespHeader.decode head).bodylen.toNat ≠ 0 := by omega
  rw [hpass]
  by_cases hlt : (AMCRespHeader.decode head).bodylen.toNat < 2 ^ 31
  · by_cases hle : (AMCRespHeader.decode head).bodylen.toNat ≤ staleLeft (.decode head) tail rest
    · obtain ⟨-, hfill⟩ :=
        fillPayload_whole hst d (.decode head) (bodyformatOf (.decode head) _) hlt hle rfl
      rw [hfill, if_neg hbody]
      exact .callback (not_called_of_other_begin rfl (hnot (by omega)))
    · rw [fillPayload_short hst d _ _ hlt (Nat.lt_of_not_le hle)]
      refine .next ⟨?_, fun hoff => ?_, _, rfl, hnot (by omega)⟩
      · rw [← hlen]
        exact (Nat.le_add_right _ _).trans (Nat.le_of_eq (List.length_append.symm.trans hst.offset.symm))
      · -- with no extension read the version is below `HEADER_JSON_VERSION`
        have hnil : ext.length = 0 := by
          have hwhole := hst.offset
          rw [List.length_append, hlen] at hwhole
          have hoff' : AMCRespHeader.size + ext.length = AMCRespHeader.size := hwhole.symm.trans hoff
          omega
        have hdec := hst.header (by
          rw [List.length_append, hlen]
          exact Nat.le_add_right _ _)
        rw [AMCRespHeader.decode_append (Nat.le_of_eq hlen.symm)] at hdec
        refine ⟨by rw [hdec]; exact hbegin, fun hjson => ?_⟩
        rw [hdec] at hjson
        rw [staleLeft, if_pos hjson] at hmore
        omega
  · rw [fillPayload_fault hst d _ _ (Nat.le_of_not_lt hlt)]
    exact .fault

/-- A packet in a block that held zeros. -/
def pack₀ (v : BitVec 16) (r : Response) : List UInt8 := Response.pack v (r, ⟨0, 0, 0⟩)

/-- The stream has moved on behind where the next packet begins. -/
def Late (v : BitVec 16) (rs : List Response) (xs : List UInt8) : Prop :=
  ∃ z : List UInt8, 6 ≤ z.length ∧ wire (pack₀ v) rs = z ++ xs

theorem Late.drop {v : BitVec 16} {rs : List Response} {xs ys : List UInt8}
    (h : Late v rs (xs ++ ys)) : Late v rs ys := by
  obtain ⟨z, hz, hwire⟩ := h
  exact ⟨z ++ xs, by rw [List.length_append]; omega, by rw [hwire, List.append_assoc]⟩

theorem not_late_nil {v : BitVec 16} {xs : List UInt8} : ¬ Late v [] xs := by
  rintro ⟨z, hz, hwire⟩
  have hlen := congrArg List.length hwire
  rw [wire_nil, List.length_append, List.length_nil] at hlen
  omega

/-- The fields `onCallback` is called with. -/
def SameFields (h h' : AMCRespHeader) : Prop :=
  h.funcid = h'.funcid ∧ h.retCode = h'.retCode ∧ h.bodylen = h'.bodylen ∧
    h.requestid = h'.requestid ∧ h.timestamp = h'.timestamp

theorem SameFields.drop_encode {h h' : AMCRespHeader} (hsame : SameFields h h') :
    h.encode.drop 6 = h'.encode.drop 6 := by
  obtain ⟨hfunc, hret, hbody, hreq, htime⟩ := hsame
  simp only [AMCRespHeader.encode, hfunc, hret, hbody, hreq, htime, List.drop_append,
    length_word, List.drop_eq_nil_of_le, Nat.reduceSub, Nat.reduceLeDiff, List.nil_append]

section Frames
variable {v : BitVec 16} (hjson : HEADER_JSON_VERSION ≤ v)
include hjson

theorem pack₀_eq (r : Response) : pack₀ v r = (r.header v).encode ++
    ([52, 0, 0, 0, 3, 0, 0, 0, 0, 0, 0, 0, 0, 0, 0, 0, 0, 0, 0, 0] ++ r.body) := by
  have hv : HEADER_PROTOCAL_VERSION ≤ v := BitVec.le_trans (by decide) hjson
  have hext : Response.extension v ⟨0, 0, 0⟩ =
      [52, 0, 0, 0, 3, 0, 0, 0, 0, 0, 0, 0, 0, 0, 0, 0, 0, 0, 0, 0] := by
    rw [Response.extension, if_pos hjson]
    decide
  rw [pack₀, Response.pack_eq hv, hext]

/-- Bytes of a packet that pass for its own header lie at its start or far behind it:
repeated at a distance below 26, the first marker byte would fall in the extension. -/
theorem le_of_sameFields {r : Response} {z head rest more : List UInt8} (hz : 6 ≤ z.length)
    (hwire : pack₀ v r ++ more = z ++ (head ++ rest)) (hlen : head.length = AMCRespHeader.size)
    (hbegin : (AMCRespHeader.decode head).begin = HEADER_BEGIN)
    (hsame : SameFields (.decode head) (r.header v)) : 26 ≤ z.length := by
  have henc := (r.header v).length_encode
  unfold AMCRespHeader.size at hlen henc
  have hdec : (AMCRespHeader.decode head).encode = head := AMCRespHeader.encode_decode hlen
  have hhead : ∀ i, 6 ≤ i → head[i]? = (r.header v).encode[i]? := by
    intro i hi
    have hdrop := hsame.drop_encode
    rw [hdec] at hdrop
    have hat : (head.drop 6)[i - 6]? = ((r.header v).encode.drop 6)[i - 6]? := by rw [hdrop]
    rwa [List.getElem?_drop, List.getElem?_drop, Nat.add_sub_of_le hi] at hat
  have hmark : head[0]? = some 0x52 := by
    rw [← hdec, AMCRespHeader.encode, hbegin]
    rfl
  rw [pack₀_eq hjson, List.append_assoc, List.append_assoc] at hwire
  -- the marker byte is repeated at every multiple of the distance
  have hstep : ∀ i, 6 ≤ i → i < 32 → (z ++ (head ++ rest))[i]? = some 0x52 →
      (z ++ (head ++ rest))[z.length + i]? = some 0x52 := by
    intro i hlo hhi hi
    rw [← hwire, List.getElem?_append_left (by omega), ← hhead i hlo] at hi
    rw [List.getElem?_append_right (Nat.le_add_right _ _), Nat.add_sub_cancel_left,
      List.getElem?_append_left (by omega), hi]
  have hext : ∀ i, 32 ≤ i → i < 52 → (z ++ (head ++ rest))[i]? ≠ some 0x52 := by
    intro i hlo hhi
    rw [← hwire, List.getElem?_append_right (by omega), henc,
      List.getElem?_append_left (by simp only [List.length_cons, List.length_nil]; omega)]
    obtain ⟨j, rfl⟩ : ∃ j, i = 32 + j := ⟨i - 32, by omega⟩
    have hj : j < 20 := by omega
    rw [Nat.add_sub_cancel_left]
    clear hhi hlo
    interval_cases j <;> decide
  have hfirst : (z ++ (head ++ rest))[z.length]? = some 0x52 := by
    rw [List.getElem?_append_right (Nat.le_refl _), Nat.sub_self,
      List.getElem?_append_left (by omega), hmark]
  by_contra hlt
  have htwo := hstep _ hz (by omega) hfirst
  by_cases h16 : 16 ≤ z.length
  · exact hext _ (by omega) (by omega) htwo
  have hthree := hstep _ (by omega) (by omega) htwo
  by_cases h11 : 11 ≤ z.length
  · exact hext _ (by omega) (by omega) hthree
  have hfour := hstep _ (by omega) (by omega) hthree
  by_cases h8 : 8 ≤ z.length
  · exact hext _ (by omega) (by omega) hfour
  have hfive := hstep _ (by omega) (by omega) hfour
  by_cases h7 : 7 ≤ z.length
  · exact hext _ (by omega) (by omega) hfive
  exact hext _ (by omega) (by omega) (hstep _ (by omega) (by omega) hfive)

theorem Late.skip {r : Response} {rs : List Response} {head ext body xs : List UInt8}
    (h : Late v (r :: rs) (head ++ (ext ++ (body ++ xs))))
    (hlen : head.length = AMCRespHeader.size)
    (hbegin : (AMCRespHeader.decode head).begin = HEADER_BEGIN)
    (hsame : SameFields (.decode head) (r.header v)) (hbody : body.length = r.body.length) :
    Late v rs xs := by
  obtain ⟨z, hz, hwire⟩ := h
  rw [wire_cons] at hwire
  have hfar := le_of_sameFields hjson hz hwire hlen hbegin hsame
  have hsize : (pack₀ v r).length = 52 + r.body.length := by
    rw [pack₀_eq hjson, List.length_append, AMCRespHeader.length_encode, List.length_append]
    simp only [AMCRespHeader.size, List.length_cons, List.length_nil]
    omega
  have hassoc : pack₀ v r ++ wire (pack₀ v) rs = (z ++ (head ++ (ext ++ body))) ++ xs := by
    rw [hwire]
    simp only [List.append_assoc]
  unfold AMCRespHeader.size at hlen
  obtain ⟨z', hz'⟩ : pack₀ v r <+: z ++ (head ++ (ext ++ body)) := by
    refine List.prefix_of_prefix_length_le ⟨_, hassoc⟩ (List.prefix_append _ _) ?_
    simp only [List.length_append]
    omega
  refine ⟨z', ?_, ?_⟩
  · have hsum := congrArg List.length hz'
    simp only [List.length_append] at hsum
    omega
  · rw [← hz', List.append_assoc] at hassoc
    exact List.append_cancel_left hassoc

/-- A header buffer as the loop leaves it: a whole version 1 header is kept only to
wait for the extension. -/
def Ready (part : List UInt8) : Prop :=
  part.length ≤ AMCRespHeader.size ∧ (part.length = AMCRespHeader.size →
    HEADER_JSON_VERSION ≤ (AMCRespHeader.decode part).version)

omit hjson in
theorem Ready.of_lt {part : List UInt8} (h : part.length < AMCRespHeader.size) : Ready part :=
  ⟨Nat.le_of_lt h, fun heq => absurd heq (Nat.ne_of_lt h)⟩

omit hjson in
theorem sameFields_of_called {r : Response} {h : AMCRespHeader} {bodyformat : BitVec 32}
    {data : Option (List UInt8)} (hcall : Called r ⟨h.funcid, h.requestid, bodyformat, h.timestamp,
      h.retCode, data, h.bodylen.toNat⟩) : SameFields h (r.header v) := by
  have hf := r.funcid_le
  have hfunc : h.funcid.toNat = r.funcid.toNat := hcall.funcid
  have hlen : h.bodylen.toNat = r.body.length := hcall.len
  refine ⟨?_, hcall.retCode, ?_, hcall.requestid, hcall.timestamp⟩
  · apply BitVec.eq_of_toNat_eq
    simp only [Response.header, respHeader, BitVec.toNat_setWidth]
    omega
  · exact BitVec.eq_of_toNat_eq (hlen.trans (r.header_bodylen v).symm)

omit hjson in
theorem recvPass_cases (v : BitVec 16) {st : RecvState} {part tail head rest : List UInt8}
    (h : Holds st part) (hready : Ready part) (hhead : part ++ tail = head)
    (hlen : head.length = AMCRespHeader.size) {c : List UInt8} {pos : Nat} (hpos : pos ≤ c.length)
    (ht : c.drop pos = tail ++ rest) (r : Response) :
    (∃ st', Holds st' [] ∧ ∀ beyond, recvPass ⟨c, beyond⟩ pos st = .refuse st') ∨
    (∃ b, Misled r (recvPass ⟨c, fun _ => b⟩ pos st)) ∨
    (∃ st', Holds st' head ∧ Ready head ∧ rest = [] ∧
      ∀ beyond, recvPass ⟨c, beyond⟩ pos st = .next c.length st') ∨
    ∃ pos' st' call ext body, pos' ≤ c.length ∧ rest = ext ++ (body ++ c.drop pos') ∧
      (AMCRespHeader.decode head).begin = HEADER_BEGIN ∧ Holds st' [] ∧
      (Called r call → SameFields (.decode head) (r.header v) ∧ body.length = r.body.length) ∧
      ∀ beyond, recvPass ⟨c, beyond⟩ pos st = .callback pos' st' call := by
  by_cases hbegin : (AMCRespHeader.decode head).begin = HEADER_BEGIN
  · right
    have hsum := congrArg List.length ht
    rw [List.length_append, List.length_drop] at hsum
    obtain ⟨ext, hext⟩ : ∃ ext, ext = extensionOf (.decode head) rest := ⟨_, rfl⟩
    have haccept (beyond : Nat → UInt8) := recvPass_accept h hhead hlen ⟨c, beyond⟩ ht hbegin hext rfl
    have hst := (haccept fun _ => 0).1
    generalize (st.fillHeader tail).fillHeader ext = st' at haccept hst
    by_cases hmore : rest.length - ext.length <
        min (AMCRespHeader.decode head).bodylen.toNat (staleLeft (.decode head) tail rest)
    · obtain ⟨b, hb⟩ := exists_ne r.body[rest.length - ext.length]?
      exact .inl ⟨b, recvPass_overread h hhead hlen ⟨c, fun _ => b⟩ hpos ht hbegin hext r hmore hb⟩
    by_cases hlt : (AMCRespHeader.decode head).bodylen.toNat < 2 ^ 31
    · have hpre : ∃ more, rest = ext ++ more := by
        rw [hext, extensionOf]
        split
        · exact ⟨_, (List.take_append_drop _ rest).symm⟩
        · exact ⟨rest, rfl⟩
      obtain ⟨more, hrest⟩ := hpre
      have hdrop : c.drop (pos + tail.length + ext.length) = more := by
        rw [hrest] at ht
        exact drop_add_of_drop (drop_add_of_drop ht)
      rw [hrest, List.length_append, Nat.add_sub_cancel_left] at hmore
      rw [hrest, List.length_append] at hsum
      by_cases hle : (AMCRespHeader.decode head).bodylen.toNat ≤ staleLeft (.decode head) tail rest
      · -- the body lies in the chunk, so the call does not depend on what is behind it
        have hin : (AMCRespHeader.decode head).bodylen.toNat ≤ more.length := by
          rw [← hrest] at hmore
          omega
        have hread (beyond : Nat → UInt8) : (⟨c, beyond⟩ : Delivery UInt8).read
            (pos + tail.length + ext.length) (AMCRespHeader.decode head).bodylen.toNat =
            more.take (AMCRespHeader.decode head).bodylen.toNat := by
          have hend : pos + tail.length + ext.length +
              (AMCRespHeader.decode head).bodylen.toNat ≤ c.length := by omega
          rw [Delivery.read_within _ hend, hdrop]
        have hpass (beyond : Nat → UInt8) :=
          (haccept beyond).2.trans (fillPayload_whole hst ⟨c, beyond⟩ (.decode head)
            (bodyformatOf (.decode head) st') hlt hle rfl).2
        simp only [hread] at hpass
        refine .inr (.inr ⟨_, _, _, ext, more.take (AMCRespHeader.decode head).bodylen.toNat,
          by omega, ?_, hbegin, hst.restart, fun hcall => ?_, hpass⟩)
        · rw [← List.drop_drop, hdrop, List.take_append_drop, hrest]
        · have hbody : (AMCRespHeader.decode head).bodylen.toNat = r.body.length := hcall.len
          exact ⟨sameFields_of_called hcall, by rw [List.length_take]; omega⟩
      · -- nothing of the payload is read: the chunk ends with the header
        have hfew : staleLeft (.decode head) tail rest ≤ more.length := by
          rw [← hrest] at hmore
          omega
        have hsize := congrArg List.length hrest
        rw [List.length_append] at hsize
        have hjson : HEADER_JSON_VERSION ≤ (AMCRespHeader.decode head).version := by
          by_contra hproto
          rw [staleLeft, if_neg hproto] at hfew
          have htail : tail = [] := List.length_eq_zero_iff.mp (by omega)
          rw [htail, List.append_nil] at hhead
          exact hproto (hhead ▸ hready.2 (hhead ▸ hlen))
        rw [staleLeft, if_pos hjson] at hfew hle
        rw [extensionOf, if_pos hjson] at hext
        have hextlen := congrArg List.length hext
        rw [List.length_take, AMCRespHeader.size, AMCRespHeaderV2.size] at hextlen
        have hnil : rest = [] := List.length_eq_zero_iff.mp (by omega)
        have hextnil : ext = [] := List.length_eq_zero_iff.mp (by omega)
        have hend : pos + tail.length = c.length := by omega
        rw [hextnil, List.append_nil] at hst
        obtain ⟨junk, hbuf, hjunk⟩ := hst.buf
        refine .inr (.inl ⟨{ st' with respPayload := some [], respPayloadOffset := 0 },
          ⟨⟨junk, hbuf, hjunk⟩, hst.offset, rfl, rfl⟩, ⟨Nat.le_of_eq hlen, fun _ => hjson⟩, hnil,
          fun beyond => ?_⟩)
        have hshort : staleLeft (.decode head) tail rest < (AMCRespHeader.decode head).bodylen.toNat := by
          rw [staleLeft, if_pos hjson]
          omega
        have hzero : staleLeft (.decode head) tail rest = 0 := by
          rw [staleLeft, if_pos hjson, hnil, List.length_nil]
        rw [(haccept beyond).2, fillPayload_short hst ⟨c, beyond⟩ _ _ hlt hshort, hzero, hextnil,
          List.length_nil, Nat.add_zero, hend, Delivery.read_zero]
    · refine .inl ⟨0, ?_⟩
      rw [(haccept fun _ => 0).2, fillPayload_fault hst _ _ _ (Nat.le_of_not_lt hlt)]
      exact .fault
  · have hrefuse (beyond : Nat → UInt8) := recvPass_refuse h hhead hlen ⟨c, beyond⟩ ht hbegin
    exact .inl ⟨_, (hrefuse fun _ => 0).1, fun beyond => (hrefuse beyond).2⟩

theorem late_from {c : List UInt8} {cs : List (List UInt8)}
    (hcs : ∀ {rs : List Response} {st : RecvState} {part : List UInt8}, Holds st part →
      Ready part → Late v rs (part ++ cs.flatten) → Unserved rs st cs) (rs : List Response) :
    ∀ {pos : Nat} {st : RecvState} {part : List UInt8}, Holds st part → Ready part →
      pos ≤ c.length → Late v rs (part ++ (c.drop pos ++ cs.flatten)) →
      UnservedFrom c pos rs st cs := by
  induction rs with
  | nil => exact fun _ _ _ hlate => absurd hlate not_late_nil
  | cons r rs ih =>
    intro pos st part h hready hpos hlate
    by_cases hend : c.length ≤ pos
    · rw [List.drop_eq_nil_of_le hend, List.nil_append] at hlate
      exact (hcs h hready hlate).done hend
    have hlt : pos < c.length := Nat.lt_of_not_le hend
    rw [← List.append_assoc] at hlate
    by_cases hshort : (part ++ c.drop pos).length < AMCRespHeader.size
    · have hpass (b : UInt8) := recvPass_part h ⟨c, fun _ => b⟩ hpos hshort
      have hrest := hcs (hpass 0).1 (.of_lt hshort) hlate
      exact (hrest.done (Nat.le_refl _)).next hlt fun b => (hpass b).2
    obtain ⟨tail, rest, ht, hlen⟩ : ∃ tail rest, c.drop pos = tail ++ rest ∧
        (part ++ tail).length = AMCRespHeader.size := by
      rw [List.length_append] at hshort
      refine ⟨_, _, (List.take_append_drop (AMCRespHeader.size - part.length) _).symm, ?_⟩
      have hle := hready.1
      rw [List.length_append, List.length_take]
      omega
    rw [ht, ← List.append_assoc, List.append_assoc] at hlate
    rcases recvPass_cases v h hready rfl hlen hpos ht r with
      ⟨st', hst', hpass⟩ | ⟨b, hmis⟩ | ⟨st', hst', hready', hnil, hpass⟩ |
      ⟨pos', st', call, ext, body, hpos', hrest, hbegin, hst', hcall, hpass⟩
    · have hrest := hcs hst' (.of_lt (by decide)) (by simpa using (hlate.drop).drop)
      exact hrest.refuse hlt fun b => hpass _
    · exact hmis.unserved hlt
    · rw [hnil, List.nil_append] at hlate
      exact ((hcs hst' hready' hlate).done (Nat.le_refl _)).next hlt fun b => hpass _
    · by_cases hc : Called r call
      · obtain ⟨hsame, hbody⟩ := hcall hc
        rw [hrest, List.append_assoc ext, List.append_assoc body] at hlate
        have hnext := hlate.skip hjson hlen hbegin hsame hbody
        exact (ih hst' (.of_lt (by decide)) hpos' (by simpa using hnext)).callback hlt
          fun b => hpass _
      · refine Misled.unserved (b := 0) hlt ?_
        rw [hpass]
        exact .callback hc

theorem late_unserved (cs : List (List UInt8)) :
    ∀ {rs : List Response} {st : RecvState} {part : List UInt8}, Holds st part → Ready part →
      Late v rs (part ++ cs.flatten) → Unserved rs st cs := by
  induction cs with
  | nil =>
    intro rs st part _ _ hlate
    refine ⟨[], rfl, fun fuel s hs hall => ?_⟩
    obtain rfl := Option.some.inj hs
    obtain rfl := List.forall₂_nil_right_iff.mp hall
    exact not_late_nil hlate
  | cons c cs ih =>
    intro rs st part h hready hlate
    exact (late_from hjson ih rs h hready (Nat.zero_le _) (by simpa using hlate)).event

/-- The rest `u` of an extension is still to come before the next packet. It does not
begin with a marker, so the header it becomes part of is refused, and the chunk with it. -/
theorem stray_unserved {u : List UInt8} (hu : u.length ≤ 20) (hmark : u.head? ≠ some 0x52)
    (hne : u ≠ []) (cs : List (List UInt8)) {r : Response} {rs : List Response} :
    ∀ {st : RecvState} {part : List UInt8}, Holds st part → part.length < AMCRespHeader.size →
      part ++ cs.flatten = u ++ wire (pack₀ v) (r :: rs) → Unserved (r :: rs) st cs := by
  induction cs with
  | nil =>
    intro st part _ hpart heq
    have hlen := congrArg List.length heq
    have hsize : AMCRespHeader.size ≤ (pack₀ v r).length := by
      rw [pack₀_eq hjson, List.length_append, AMCRespHeader.length_encode]
      exact Nat.le_add_right _ _
    simp only [List.flatten_nil, List.append_nil, wire_cons, List.length_append] at hlen
    omega
  | cons c cs ih =>
    intro st part h hpart heq
    rw [List.flatten_cons, ← List.append_assoc] at heq
    refine UnservedFrom.event ?_
    by_cases hend : c.length ≤ 0
    · have hnil : c = [] := List.length_eq_zero_iff.mp (Nat.le_zero.mp hend)
      exact (ih h hpart (by simpa [hnil] using heq)).done hend
    have hlt : 0 < c.length := Nat.lt_of_not_le hend
    by_cases hshort : (part ++ c.drop 0).length < AMCRespHeader.size
    · have hpass (b : UInt8) := recvPass_part h ⟨c, fun _ => b⟩ (Nat.zero_le _) hshort
      exact ((ih (hpass 0).1 hshort (by simpa using heq)).done (Nat.le_refl _)).next hlt
        fun b => (hpass b).2
    rw [List.drop_zero, List.length_append] at hshort
    obtain ⟨tail, rest, rfl, hlen⟩ : ∃ tail rest, c = tail ++ rest ∧
        (part ++ tail).length = AMCRespHeader.size := by
      refine ⟨_, _, (List.take_append_drop (AMCRespHeader.size - part.length) _).symm, ?_⟩
      rw [List.length_append, List.length_take]
      omega
    have hbegin : (AMCRespHeader.decode (part ++ tail)).begin ≠ HEADER_BEGIN := by
      intro hbegin
      apply hmark
      have hfirst := AMCRespHeader.head?_of_begin hlen hbegin
      have hsame := congrArg List.head? heq
      obtain ⟨b, u, rfl⟩ := List.exists_cons_of_ne_nil hne
      rw [← List.append_assoc, List.append_assoc, List.head?_append, hfirst] at hsame
      simpa using hsame.symm
    have hpass (b : UInt8) := recvPass_refuse h rfl hlen ⟨tail ++ rest, fun _ => b⟩
      (List.drop_zero : (tail ++ rest).drop 0 = tail ++ rest) hbegin
    refine Unserved.refuse (late_unserved hjson cs (hpass 0).1 (.of_lt (by decide)) ?_) hlt
      fun b => (hpass b).2
    -- the chunk reaches at least twelve bytes into the next packet
    unfold AMCRespHeader.size at hshort
    obtain ⟨z, hz⟩ : u <+: part ++ (tail ++ rest) :=
      List.prefix_of_prefix_length_le ⟨_, heq.symm⟩ (List.prefix_append _ _) (by
        rw [List.length_append]
        omega)
    have hzlen := congrArg List.length hz
    rw [List.length_append, List.length_append] at hzlen
    refine ⟨z, by omega, ?_⟩
    rw [← hz, List.append_assoc] at heq
    exact (List.append_cancel_left heq).symm

end Frames

end LocalsocketClient

end Hardcoder
