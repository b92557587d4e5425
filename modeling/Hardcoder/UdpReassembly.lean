import Hardcoder.Udp
import Mathlib.Data.List.Nodup
import Mathlib.Data.List.Perm.Subperm
import Mathlib.Tactic.Choose

/-! Fragments and sessions: the fragments of messages sent one behind the other, taken in
order, make these messages again. -/

namespace Hardcoder.UDP
set_option autoImplicit false

namespace SendPack
variable (pack : SendPack)

def datalenAt (offset : Nat) : Nat :=
  if pack.data.length - offset < CONST_MAXPKTSIZE then pack.data.length - offset
  else CONST_MAXPKTSIZE

def fragmentAt (offset : Nat) : UdpPkg :=
  { UdpPkg.new with
    sessionid := pack.sessionid
    totallen := BitVec.ofNat 32 pack.data.length
    offset := BitVec.ofNat 32 offset
    datalen := BitVec.ofNat 16 (pack.datalenAt offset)
    data := (pack.data.drop offset).take (pack.datalenAt offset) }

variable {pack}

theorem datalenAt_pos {offset : Nat} (h : offset < pack.data.length) : 0 < pack.datalenAt offset := by
  unfold datalenAt CONST_MAXPKTSIZE
  split <;> omega

theorem datalenAt_le (offset : Nat) :
    pack.datalenAt offset ≤ CONST_MAXPKTSIZE ∧ pack.datalenAt offset ≤ pack.data.length - offset := by
  unfold datalenAt CONST_MAXPKTSIZE
  split <;> omega

theorem cut_succ {offset : Nat} (h : offset < pack.data.length) (fuel : Nat) :
    pack.cut (fuel + 1) offset =
      pack.fragmentAt offset :: pack.cut fuel (offset + pack.datalenAt offset) := by
  rw [cut, if_pos h]
  rfl

theorem cut_of_le {offset : Nat} (h : pack.data.length ≤ offset) (fuel : Nat) :
    pack.cut fuel offset = [] := by
  cases fuel with
  | zero => rfl
  | succ fuel => rw [cut, if_neg (Nat.not_lt.mpr h)]

theorem fragmentAt_datalen (offset : Nat) :
    (pack.fragmentAt offset).datalen.toNat = pack.datalenAt offset ∧
      (pack.fragmentAt offset).data.length = pack.datalenAt offset := by
  have hle := pack.datalenAt_le offset
  unfold CONST_MAXPKTSIZE at hle
  constructor
  · simp only [fragmentAt, BitVec.toNat_ofNat]
    omega
  · rw [fragmentAt, List.length_take, List.length_drop]
    omega

theorem mem_cut {f : UdpPkg} (fuel : Nat) :
    ∀ {offset : Nat}, f ∈ pack.cut fuel offset →
      ∃ o, o < pack.data.length ∧ f = pack.fragmentAt o := by
  induction fuel with
  | zero => exact fun hf => by cases hf
  | succ fuel ih =>
    intro offset hf
    by_cases hlt : offset < pack.data.length
    · rw [cut_succ hlt] at hf
      rcases List.mem_cons.mp hf with rfl | hf
      · exact ⟨offset, hlt, rfl⟩
      · exact ih hf
    · rw [cut_of_le (Nat.not_lt.mp hlt)] at hf
      cases hf

theorem mem_fragments {f : UdpPkg} (hf : f ∈ pack.fragments) :
    ∃ o, o < pack.data.length ∧ f = pack.fragmentAt o :=
  mem_cut _ hf

end SendPack

abbrev Message := BitVec 64 × List UInt8

/-- The open sessions and the messages raised so far. -/
abbrev Reassembly := SortedMap Int Session × List Message

/-- What `dataRecv` does to them. -/
def accept (st : Reassembly) (p : UdpPkg) : Reassembly :=
  let out := Udp.dataRecv p 0 ⟨⟨0, 0⟩, .OPEN, 0, st.1⟩
  (out.rs.sessionMap, st.2 ++ (out.message.map fun m => (p.sessionid, m)).toList)

def reassemble (fs : List UdpPkg) : Reassembly := fs.foldl accept (.empty, [])

theorem accept_stamp (st : Reassembly) (p : UdpPkg) (type : BitVec 8) (seq : BitVec 32) :
    accept st (p.stamp type seq) = accept st p := rfl

theorem dataRecv_accept (p : UdpPkg) (recvRet : Nat) (rs : Receiver) (ms : List Message) :
    (Udp.dataRecv p recvRet rs).rs = { rs with sessionMap := (accept (rs.sessionMap, ms) p).1 } ∧
      (accept (rs.sessionMap, ms) p).2 =
        ms ++ ((Udp.dataRecv p recvRet rs).message.map fun m => (p.sessionid, m)).toList := by
  have hsame : Udp.sessionOf p ⟨⟨0, 0⟩, .OPEN, 0, rs.sessionMap⟩ = Udp.sessionOf p rs := rfl
  unfold accept Udp.dataRecv
  dsimp only
  rw [hsame]
  cases Udp.sessionOf p rs with
  | none => exact ⟨rfl, rfl⟩
  | some s =>
    dsimp only
    split <;> exact ⟨rfl, rfl⟩

theorem messages_accept (st : Reassembly) (p : UdpPkg) : st.2 <+: (accept st p).2 :=
  List.prefix_append _ _

theorem messages_foldl (fs : List UdpPkg) : ∀ st : Reassembly, st.2 <+: (fs.foldl accept st).2 := by
  induction fs with
  | nil => exact fun st => List.prefix_rfl
  | cons f fs ih => exact fun st => (messages_accept st f).trans (ih _)

theorem messages_take {frags : List UdpPkg} {n n' : Nat} (h : n ≤ n') :
    (reassemble (frags.take n)).2 <+: (reassemble (frags.take n')).2 := by
  obtain ⟨rest, hrest⟩ := List.take_prefix_take_left h (l := frags)
  rw [← hrest, reassemble, reassemble, List.foldl_append]
  exact messages_foldl rest _

section Pack
variable {pack : SendPack}

/-- The sessions once `offset` bytes of the message are there. -/
def midway (pack : SendPack) (offset : Nat) : SortedMap Int Session :=
  if offset = 0 then .empty
  else [(pack.sessionid.toInt, ⟨BitVec.ofNat 32 offset, pack.data.take offset, pack.data.length⟩)]

/-- The sessions `m`, and this message's once `offset` of its bytes are there. -/
def holding (m : SortedMap Int Session) (pack : SendPack) (offset : Nat) : SortedMap Int Session :=
  if offset = 0 then m
  else m.set pack.sessionid.toInt ⟨BitVec.ofNat 32 offset, pack.data.take offset, pack.data.length⟩

section Holding
variable {m : SortedMap Int Session} {offset : Nat}

theorem sessionOf_holding (hnone : m.get? pack.sessionid.toInt = none) (h : offset < pack.data.length)
    {rs : Receiver} (hrs : rs.sessionMap = holding m pack offset) :
    Udp.sessionOf (pack.fragmentAt offset) rs =
      some ⟨BitVec.ofNat 32 offset, pack.data.take offset, pack.data.length⟩ := by
  have hlen := pack.len_lt
  have htotal : (BitVec.ofNat 32 pack.data.length).toNat = pack.data.length := by
    rw [BitVec.toNat_ofNat]
    omega
  have hsid : (pack.fragmentAt offset).sessionid = pack.sessionid := rfl
  unfold Udp.sessionOf
  rw [hrs, hsid, holding]
  by_cases hzero : offset = 0
  · subst hzero
    rw [if_pos rfl, hnone]
    simp [SendPack.fragmentAt, htotal]
  · rw [if_neg hzero, SortedMap.get?_set_self]
    simp [SendPack.fragmentAt]

theorem set_holding (s : Session) : SortedMap.set (holding m pack offset) pack.sessionid.toInt s =
    m.set pack.sessionid.toInt s := by
  unfold holding
  split
  · rfl
  · rw [SortedMap.set_set_self]

theorem erase_holding (hnone : m.get? pack.sessionid.toInt = none) :
    SortedMap.erase (holding m pack offset) pack.sessionid.toInt = m := by
  unfold holding
  split
  · exact SortedMap.erase_of_get?_eq_none hnone
  · exact SortedMap.erase_set_self hnone _

/-- The fragment adds its bytes to the session; the last one ends it. -/
theorem dataRecv_fragmentAt (hnone : m.get? pack.sessionid.toInt = none)
    (h : offset < pack.data.length) (recvRet : Nat) {rs : Receiver}
    (hrs : rs.sessionMap = holding m pack offset) :
    (Udp.dataRecv (pack.fragmentAt offset) recvRet rs).rs = { rs with
      sessionMap := if offset + pack.datalenAt offset = pack.data.length then m
        else holding m pack (offset + pack.datalenAt offset) } ∧
    (Udp.dataRecv (pack.fragmentAt offset) recvRet rs).message =
      if offset + pack.datalenAt offset = pack.data.length then some pack.data else none := by
  have hlen := pack.len_lt
  have hpos := SendPack.datalenAt_pos h
  have hle := (pack.datalenAt_le offset).2
  obtain ⟨hdatalen, hdata⟩ := pack.fragmentAt_datalen offset
  have hbuf : pack.data.take offset ++
      (pack.fragmentAt offset).data.take (pack.fragmentAt offset).datalen.toNat =
        pack.data.take (offset + pack.datalenAt offset) := by
    rw [hdatalen, ← hdata, List.take_length, hdata, List.take_add]
    rfl
  have hfirst : (pack.fragmentAt offset).offset + (pack.fragmentAt offset).datalen.setWidth 32 =
      BitVec.ofNat 32 (offset + pack.datalenAt offset) := by
    apply BitVec.eq_of_toNat_eq
    rw [BitVec.toNat_add, BitVec.toNat_setWidth, hdatalen]
    simp only [SendPack.fragmentAt, BitVec.toNat_ofNat]
    omega
  have hwhole : (BitVec.ofNat 32 (offset + pack.datalenAt offset) =
      (pack.fragmentAt offset).totallen) ↔ offset + pack.datalenAt offset = pack.data.length := by
    rw [SendPack.fragmentAt, ← BitVec.toNat_inj]
    simp only [BitVec.toNat_ofNat]
    omega
  have hsid : (pack.fragmentAt offset).sessionid = pack.sessionid := rfl
  simp only [Udp.dataRecv, sessionOf_holding hnone h hrs, hbuf, hfirst, hwhole, hsid, hrs, set_holding,
    erase_holding hnone]
  by_cases hlast : offset + pack.datalenAt offset = pack.data.length
  · have htake : (BitVec.ofNat 32 pack.data.length).toNat = pack.data.length := by
      rw [BitVec.toNat_ofNat]
      omega
    rw [if_pos hlast, if_pos hlast, if_pos hlast, hlast, htake, List.take_length, List.take_length]
    exact ⟨rfl, rfl⟩
  · have hne : offset + pack.datalenAt offset ≠ 0 := by omega
    rw [if_neg hlast, if_neg hlast, if_neg hlast, holding, if_neg hne]
    exact ⟨rfl, rfl⟩

end Holding

theorem accept_fragmentAt {offset : Nat} (h : offset < pack.data.length) (ms : List Message) :
    accept (midway pack offset, ms) (pack.fragmentAt offset) =
      if offset + pack.datalenAt offset = pack.data.length then
        (.empty, ms ++ [(pack.sessionid, pack.data)])
      else (midway pack (offset + pack.datalenAt offset), ms) := by
  have hmidway : (⟨⟨0, 0⟩, .OPEN, 0, midway pack offset⟩ : Receiver).sessionMap =
      holding .empty pack offset := rfl
  obtain ⟨hrs, hmessage⟩ := dataRecv_fragmentAt rfl h 0 hmidway
  rw [accept, hrs, hmessage]
  split
  · rfl
  · rw [Option.map_none, Option.toList_none, List.append_nil]
    rfl

theorem foldl_cut (fuel : Nat) : ∀ {offset : Nat} {fs : List UdpPkg} (ms : List Message),
    offset < pack.data.length → pack.data.length - offset ≤ fuel → fs <+: pack.cut fuel offset →
      (fs = pack.cut fuel offset ∧
        fs.foldl accept (midway pack offset, ms) = (.empty, ms ++ [(pack.sessionid, pack.data)])) ∨
      (fs ≠ pack.cut fuel offset ∧
        ∃ o, fs.foldl accept (midway pack offset, ms) = (midway pack o, ms)) := by
  induction fuel with
  | zero =>
    intro offset fs ms hlt hfuel hfs
    omega
  | succ fuel ih =>
    intro offset fs ms hlt hfuel hfs
    rw [SendPack.cut_succ hlt] at hfs ⊢
    cases fs with
    | nil => exact .inr ⟨List.cons_ne_nil _ _ ∘ Eq.symm, offset, rfl⟩
    | cons f fs =>
      obtain ⟨rfl, hrest⟩ := List.cons_prefix_cons.mp hfs
      have hpos := SendPack.datalenAt_pos hlt
      have hle := (pack.datalenAt_le offset).2
      rw [List.foldl_cons, accept_fragmentAt hlt]
      by_cases hlast : offset + pack.datalenAt offset = pack.data.length
      · rw [SendPack.cut_of_le (Nat.le_of_eq hlast.symm)] at hrest ⊢
        obtain rfl := List.prefix_nil.mp hrest
        rw [if_pos hlast]
        exact .inl ⟨rfl, rfl⟩
      · rw [if_neg hlast]
        rcases ih ms (by omega) (by omega) hrest with ⟨rfl, hall⟩ | ⟨hne, hsome⟩
        · exact .inl ⟨rfl, hall⟩
        · exact .inr ⟨fun heq => hne (List.cons.inj heq).2, hsome⟩

/-- The message a receiver gets from it, if it is not empty. -/
def SendPack.delivered (pack : SendPack) : List Message :=
  if pack.data = [] then [] else [(pack.sessionid, pack.data)]

theorem flatMap_delivered (packs : List SendPack) : packs.flatMap (·.delivered) =
    (packs.filter (·.data ≠ [])).map fun pack => (pack.sessionid, pack.data) := by
  induction packs with
  | nil => rfl
  | cons pack packs ih =>
    rw [List.flatMap_cons, ih, SendPack.delivered]
    by_cases hnil : pack.data = []
    · simp [hnil]
    · simp [hnil]

theorem foldl_fragments {fs : List UdpPkg} (ms : List Message) (hfs : fs <+: pack.fragments) :
    (fs = pack.fragments ∧ fs.foldl accept (.empty, ms) = (.empty, ms ++ pack.delivered)) ∨
      (fs ≠ pack.fragments ∧ (fs.foldl accept (.empty, ms)).2 = ms) := by
  unfold SendPack.fragments at hfs ⊢
  by_cases hnil : pack.data = []
  · rw [SendPack.cut_of_le (by simp [hnil])] at hfs ⊢
    obtain rfl := List.prefix_nil.mp hfs
    rw [SendPack.delivered, if_pos hnil, List.append_nil]
    exact .inl ⟨rfl, rfl⟩
  · rw [SendPack.delivered, if_neg hnil]
    rcases foldl_cut _ ms (List.length_pos_iff.mpr hnil) (Nat.le_of_eq (Nat.sub_zero _)) hfs with
      hall | ⟨hne, o, hsome⟩
    · exact .inl hall
    · exact .inr ⟨hne, congrArg Prod.snd hsome⟩

theorem foldl_whole (pack : SendPack) (ms : List Message) :
    pack.fragments.foldl accept (.empty, ms) = (.empty, ms ++ pack.delivered) := by
  rcases foldl_fragments ms (List.prefix_rfl : pack.fragments <+: pack.fragments) with
    ⟨-, hall⟩ | ⟨hne, -⟩
  · exact hall
  · exact absurd rfl hne

end Pack

/-! ### Messages one behind the other -/

theorem prefix_append_cases {α : Type} {xs ys zs : List α} (h : xs <+: ys ++ zs) :
    xs <+: ys ∨ ∃ ws, xs = ys ++ ws ∧ ws <+: zs := by
  obtain ⟨rest, hrest⟩ := h
  rcases List.append_eq_append_iff.mp hrest with ⟨ws, rfl, -⟩ | ⟨ws, rfl, rfl⟩
  · exact .inl (List.prefix_append _ _)
  · exact .inr ⟨ws, rfl, List.prefix_append _ _⟩

theorem messages_front {packs : List SendPack} : ∀ {fs : List UdpPkg} (ms : List Message),
    fs <+: packs.flatMap (·.fragments) →
      (fs.foldl accept (.empty, ms)).2 <+: ms ++ packs.flatMap (·.delivered) := by
  induction packs with
  | nil =>
    intro fs ms hfs
    obtain rfl := List.prefix_nil.mp hfs
    exact List.prefix_append _ _
  | cons pack packs ih =>
    intro fs ms hfs
    rw [List.flatMap_cons] at hfs ⊢
    rcases prefix_append_cases hfs with hfirst | ⟨rest, rfl, hrest⟩
    · rcases foldl_fragments ms hfirst with ⟨rfl, hall⟩ | ⟨-, hsome⟩
      · rw [hall, ← List.append_assoc]
        exact List.prefix_append _ _
      · rw [hsome]
        exact List.prefix_append _ _
    · rw [List.foldl_append, foldl_whole, ← List.append_assoc]
      exact ih _ hrest

theorem eq_fragments_of_last {pack : SendPack} (fuel : Nat) :
    ∀ {offset : Nat} {fs : List UdpPkg} {f : UdpPkg} {rest : List UdpPkg},
      offset < pack.data.length → pack.cut fuel offset = fs ++ f :: rest →
      f.totallen = f.offset + f.datalen.setWidth 32 → rest = [] := by
  have hlen := pack.len_lt
  induction fuel with
  | zero =>
    intro offset fs f rest hlt hcut
    simp [SendPack.cut] at hcut
  | succ fuel ih =>
    intro offset fs f rest hlt hcut hlast
    rw [SendPack.cut_succ hlt] at hcut
    have hle := (pack.datalenAt_le offset).2
    by_cases hmore : offset + pack.datalenAt offset < pack.data.length
    · cases fs with
      | nil =>
        obtain ⟨rfl, -⟩ := List.cons.inj hcut
        have htotal := congrArg BitVec.toNat hlast
        rw [BitVec.toNat_add, BitVec.toNat_setWidth, (pack.fragmentAt_datalen offset).1] at htotal
        simp only [SendPack.fragmentAt, BitVec.toNat_ofNat] at htotal
        omega
      | cons g fs => exact ih hmore (List.cons.inj hcut).2 hlast
    · rw [SendPack.cut_of_le (Nat.not_lt.mp hmore)] at hcut
      cases fs with
      | nil => exact (List.cons.inj hcut).2.symm
      | cons g fs => simp at hcut

theorem take_fragments {pack : SendPack} {k : Nat} {f : UdpPkg} (hf : pack.fragments[k]? = some f)
    (hlast : f.totallen = f.offset + f.datalen.setWidth 32) :
    pack.fragments.take (k + 1) = pack.fragments := by
  obtain ⟨hk, hget⟩ := List.getElem?_eq_some_iff.mp hf
  have hsplit : pack.fragments = pack.fragments.take k ++ f :: pack.fragments.drop (k + 1) := by
    rw [← hget, List.getElem_cons_drop, List.take_append_drop]
  have hlen : 0 < pack.data.length := by
    by_contra hnot
    have hnone : pack.fragments = [] := SendPack.cut_of_le (Nat.not_lt.mp hnot) _
    rw [hnone] at hk
    exact Nat.not_lt_zero _ hk
  have hrest : pack.fragments.drop (k + 1) = [] := eq_fragments_of_last _ hlen hsplit hlast
  rw [List.take_of_length_le (List.drop_eq_nil_iff.mp hrest)]

/-- The `j`-th message ends with the `k`-th fragment and is among those delivered then. -/
structure EndsAt (packs : List SendPack) (ms : List Message) (f : UdpPkg) (k j : Nat)
    (pack : SendPack) : Prop where
  get : packs[j]? = some pack
  length : ((packs.take (j + 1)).flatMap (·.fragments)).length = k + 1
  sessionid : pack.sessionid = f.sessionid
  delivered : (pack.sessionid, pack.data) ∈
    (((packs.flatMap (·.fragments)).take (k + 1)).foldl accept (.empty, ms)).2

theorem endsAt_of_last {packs : List SendPack} : ∀ {k : Nat} {f : UdpPkg} (ms : List Message),
    (packs.flatMap (·.fragments))[k]? = some f →
    f.totallen = f.offset + f.datalen.setWidth 32 → ∃ j pack, EndsAt packs ms f k j pack := by
  induction packs with
  | nil => exact fun ms hf => by simp at hf
  | cons pack packs ih =>
    intro k f ms hf hlast
    rw [List.flatMap_cons] at hf
    by_cases hk : k < pack.fragments.length
    · rw [List.getElem?_append_left hk] at hf
      have hmem := List.mem_of_getElem? hf
      obtain ⟨o, ho, rfl⟩ := SendPack.mem_fragments hmem
      have htake := take_fragments hf hlast
      have hlength : pack.fragments.length = k + 1 := by
        have hlen := congrArg List.length htake
        rw [List.length_take] at hlen
        omega
      refine ⟨0, pack, rfl, ?_, rfl, ?_⟩
      · simpa using hlength
      · rw [List.flatMap_cons, List.take_append_of_le_length hk, htake]
        rw [foldl_whole, SendPack.delivered, if_neg (List.length_pos_iff.mp (Nat.zero_lt_of_lt ho))]
        exact List.mem_append_right _ List.mem_cons_self
    · obtain ⟨n, rfl⟩ := Nat.exists_eq_add_of_le (Nat.not_lt.mp hk)
      rw [List.getElem?_append_right (Nat.le_add_right _ _), Nat.add_sub_cancel_left] at hf
      obtain ⟨j, pack', hends⟩ := ih (ms ++ pack.delivered) hf hlast
      refine ⟨j + 1, pack', hends.get, ?_, hends.sessionid, ?_⟩
      · rw [List.take_succ_cons, List.flatMap_cons, List.length_append, hends.length]
        omega
      · rw [List.flatMap_cons, Nat.add_assoc, List.take_length_add_append, List.foldl_append,
          foldl_whole]
        exact hends.delivered

/-- The session of the `k`-th fragment. -/
def sessionAt (frags : List UdpPkg) (k : Nat) : BitVec 64 := (frags[k]?.map (·.sessionid)).getD 0

/-- The `k`-th fragment reaches to the end of its message. -/
def LastAt (frags : List UdpPkg) (k : Nat) : Prop :=
  ∃ f, frags[k]? = some f ∧ f.totallen = f.offset + f.datalen.setWidth 32

section LastAt
variable {frags more : List UdpPkg} {k : Nat}

theorem sessionAt_extend (hk : k < frags.length) (hmore : frags <+: more) :
    sessionAt more k = sessionAt frags k := by
  obtain ⟨rest, rfl⟩ := hmore
  rw [sessionAt, sessionAt, List.getElem?_append_left hk]

theorem LastAt.extend (h : LastAt frags k) (hmore : frags <+: more) : LastAt more k := by
  obtain ⟨f, hf, hlast⟩ := h
  obtain ⟨rest, rfl⟩ := hmore
  exact ⟨f, by rw [List.getElem?_append_left (List.getElem?_eq_some_iff.mp hf).1, hf], hlast⟩

end LastAt

theorem filterMap_range_getElem? {α : Type} (xs : List α) :
    (List.range xs.length).filterMap (xs[·]?) = xs := by
  induction xs with
  | nil => rfl
  | cons x xs ih =>
    rw [List.length_cons, List.range_succ_eq_map, List.filterMap_cons, List.filterMap_map]
    exact congrArg (x :: ·) ih

/-- Different last fragments end different messages. -/
theorem owners {packs : List SendPack} {done : List Nat} (hnodup : done.Nodup)
    (hlast : ∀ k ∈ done, LastAt (packs.flatMap (·.fragments)) k) :
    ∃ owners : List SendPack, owners.Subperm packs ∧
      owners.map (·.sessionid) = done.map (sessionAt (packs.flatMap (·.fragments))) ∧
      ∀ pack ∈ owners, ∃ k ∈ done, (pack.sessionid, pack.data) ∈
        (reassemble ((packs.flatMap (·.fragments)).take (k + 1))).2 := by
  have hends (k : { k // k ∈ done }) : ∃ j pack, packs[j]? = some pack ∧
      ((packs.take (j + 1)).flatMap (·.fragments)).length = k.val + 1 ∧
      pack.sessionid = sessionAt (packs.flatMap (·.fragments)) k ∧
      (pack.sessionid, pack.data) ∈
        (reassemble ((packs.flatMap (·.fragments)).take (k + 1))).2 := by
    obtain ⟨f, hf, hlast⟩ := hlast k k.property
    obtain ⟨j, pack, hget, hlength, hsid, hdelivered⟩ := endsAt_of_last [] hf hlast
    refine ⟨j, pack, hget, hlength, ?_, hdelivered⟩
    rw [hsid, sessionAt, hf]
    rfl
  choose index owner hget hlength hsid hdelivered using hends
  have hinj : Function.Injective index := by
    intro k k' heq
    have hsame := hlength k
    rw [heq, hlength k'] at hsame
    exact Subtype.ext (Nat.succ.inj hsame).symm
  have hindices : (done.attach.map index).Subperm (List.range packs.length) := by
    refine ((List.nodup_attach.mpr hnodup).map hinj).subperm fun j hj => ?_
    obtain ⟨k, -, rfl⟩ := List.mem_map.mp hj
    exact List.mem_range.mpr (List.getElem?_eq_some_iff.mp (hget k)).1
  refine ⟨done.attach.map owner, ?_, ?_, fun pack hpack => ?_⟩
  · obtain ⟨js, hperm, hsub⟩ := hindices
    have howners : (done.attach.map index).filterMap (packs[·]?) = done.attach.map owner := by
      rw [List.filterMap_map, ← List.filterMap_eq_map]
      exact congrArg (List.filterMap · done.attach) (funext hget)
    have hall : (List.range packs.length).filterMap (packs[·]?) = packs := filterMap_range_getElem? packs
    have howned := hsub.filterMap (packs[·]?)
    rw [hall] at howned
    exact ⟨_, howners ▸ hperm.filterMap (packs[·]?), howned⟩
  · rw [List.map_map, ← List.attach_map_val (f := sessionAt (packs.flatMap (·.fragments)))]
    exact List.map_congr_left fun k _ => hsid k
  · obtain ⟨k, -, rfl⟩ := List.mem_map.mp hpack
    exact ⟨k, k.property, hdelivered k⟩

end Hardcoder.UDP
