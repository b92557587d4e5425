import Hardcoder.ConnectionIsolation

/-! The copies of the server's `recvEvent`. They stay in the chunk as long as no chunk ends
in the body of a packet. -/

namespace Hardcoder
open Stream Runs
set_option autoImplicit false

/-- A `memcpy`: from where in the chunk, how much, to where in a buffer of which size. -/
structure Copy where
  source : Nat
  length : Nat
  target : Nat
  size : Nat
deriving DecidableEq, Repr

def Copy.InBounds (c : Copy) (recvDataLen : Nat) : Prop :=
  c.source + c.length ≤ recvDataLen ∧ c.target + c.length ≤ c.size

/-- The `size_t` that a word becomes which was stored as an `int`. -/
def intLength (n : Nat) : Nat := if 2 ^ 31 ≤ n then n + (2 ^ 64 - 2 ^ 32) else n

/-- What an `EVENT_DATA` hands over: `recvDataLen` is an `int`. -/
structure Received (α : Type) extends Delivery α where
  len_lt : bytes.length < 2 ^ 31

namespace LocalSocketServer
section Passes
variable {α : Type} (val : α → UInt8) (d : Delivery α)

/-- The copies of one pass, with the `readLeft` its condition computed. -/
def passCopies (readLeft readPtr : Nat) (cache : RecvCache α) : List Copy :=
  let shouldRead := min (AMCReqHeader.size - cache.reqHeaderOffset) readLeft
  let header : List Copy :=
    if cache.reqHeaderOffset < AMCReqHeader.size then
      [⟨readPtr, shouldRead, cache.reqHeaderOffset, AMCReqHeader.size⟩] else []
  let cache := { cache with reqHeaderBuf := cache.reqHeaderBuf ++ d.read readPtr shouldRead }
  let readPtr := readPtr + shouldRead
  if cache.reqHeaderOffset < AMCReqHeader.size then header
  else
    let pHeader := cache.pHeader val
    let bodylen := pHeader.bodylen.toNat
    if pHeader.begin ≠ HEADER_BEGIN then header
    else if cache.reqPayloadOffset < bodylen then
      let shouldRead := min (bodylen - cache.reqPayloadOffset) readLeft
      header ++ [⟨readPtr, intLength shouldRead, cache.reqPayloadOffset, bodylen⟩]
    else header

/-- The loop: one pass after the other while `readLeft` is not zero. -/
def nextPass (s : Nat × Option (RecvCache α)) : Option (Nat × Option (RecvCache α)) :=
  let left := readLeft d.bytes.length s.1
  if left = 0 then none
  else
    match recvPass val d left s.1 (s.2.getD .new) with
    | .dispatch readPtr _ => some (readPtr, none)
    | .wait _ | .refuse | .fault => none

/-- Neither the read pointer nor an offset has passed its end, and neither do the copies of
the pass. -/
structure PassInBounds (s : Nat × Option (RecvCache α)) : Prop where
  readPtr : s.1 ≤ d.bytes.length
  header : (s.2.getD .new).reqHeaderOffset ≤ AMCReqHeader.size
  payload : (s.2.getD .new).reqPayload.isSome →
    (s.2.getD .new).reqPayloadOffset ≤ ((s.2.getD .new).pHeader val).bodylen.toNat
  copies : readLeft d.bytes.length s.1 ≠ 0 →
    ∀ c ∈ passCopies val d (readLeft d.bytes.length s.1) s.1 (s.2.getD .new),
      c.InBounds d.bytes.length

variable {val d}

theorem cutInBody_short {bytes : List UInt8} (h : bytes.length < AMCReqHeader.size) (n : Nat) :
    cutInBody n bytes = false := by
  cases n with
  | zero => rfl
  | succ n => rw [cutInBody, if_pos h]

/-- Before a body only the copies can leave their bounds. -/
theorem passInBounds_iff (hlen : d.bytes.length < 2 ^ 31) {pos : Nat}
    {cache : Option (RecvCache α)} {part : List α} (hpos : pos ≤ d.bytes.length)
    (hget : cache.getD .new = ⟨part, none⟩) (hpart : part.length < AMCReqHeader.size) :
    PassInBounds val d (pos, cache) ↔ (d.bytes.length - pos ≠ 0 →
      ∀ c ∈ passCopies val d (d.bytes.length - pos) pos ⟨part, none⟩,
        c.InBounds d.bytes.length) := by
  constructor
  · intro h
    have hcopies := h.copies
    rwa [hget, readLeft_eq hpos hlen] at hcopies
  · intro h
    refine ⟨hpos, ?_, ?_, ?_⟩
    · rw [hget]
      exact Nat.le_of_lt hpart
    · rw [hget]
      exact Bool.noConfusion
    · rwa [hget, readLeft_eq hpos hlen]

/-- The pass is the last, and its copies stay in the chunk. -/
theorem always_of_last {s : Nat × Option (RecvCache α)} (h : PassInBounds val d s)
    (hlast : nextPass val d s = none) : Always (nextPass val d) (PassInBounds val d) s := by
  refine always_iff.mpr ⟨h, fun t ht => ?_⟩
  rw [hlast] at ht
  cases ht

theorem always_short (hlen : d.bytes.length < 2 ^ 31) {pos : Nat} {cache : Option (RecvCache α)}
    {part : List α} (hpos : pos ≤ d.bytes.length) (hget : cache.getD .new = ⟨part, none⟩)
    (hshort : (part ++ d.bytes.drop pos).length < AMCReqHeader.size) :
    Always (nextPass val d) (PassInBounds val d) (pos, cache) := by
  have hleft := readLeft_eq hpos hlen
  have hdrop : (d.bytes.drop pos).length = d.bytes.length - pos := List.length_drop
  rw [List.length_append, hdrop] at hshort
  have hpart : part.length < AMCReqHeader.size := by omega
  refine always_of_last ((passInBounds_iff hlen hpos hget hpart).mpr fun _ c hc => ?_) ?_
  · have hread : min (AMCReqHeader.size - part.length) (d.bytes.length - pos) =
        d.bytes.length - pos := by omega
    simp only [passCopies, RecvCache.reqHeaderOffset, hread, List.length_append,
      Delivery.length_read, if_pos hshort, if_pos hpart, List.mem_singleton] at hc
    rw [hc]
    exact ⟨by dsimp only; omega, by dsimp only; omega⟩
  · rw [nextPass]
    dsimp only
    split
    · rfl
    · rw [hget, hleft, recvPass_part d (by rw [List.length_append, hdrop]; exact hshort) hdrop.symm]

section Whole
variable {pos left : Nat} {cache : Option (RecvCache α)} {part tail rest : List α}
  {pHeader : AMCReqHeader}

theorem passCopies_whole (hsize : (part ++ tail).length = AMCReqHeader.size)
    (hpart : part.length < AMCReqHeader.size)
    (hdec : AMCReqHeader.decode ((part ++ tail).map val) = pHeader)
    (ht : d.bytes.drop pos = tail ++ rest) (hleft : tail.length ≤ left) :
    passCopies val d left pos ⟨part, none⟩ = ⟨pos, tail.length, part.length, AMCReqHeader.size⟩ ::
      if pHeader.begin ≠ HEADER_BEGIN then []
      else if 0 < pHeader.bodylen.toNat then
        [⟨pos + tail.length, intLength (min pHeader.bodylen.toNat left), 0, pHeader.bodylen.toNat⟩]
      else [] := by
  have hsum := hsize
  rw [List.length_append] at hsum
  have hread : min (AMCReqHeader.size - part.length) left = tail.length := by omega
  simp only [passCopies, RecvCache.reqHeaderOffset, hread, d.read_front ht, hsize,
    Nat.lt_irrefl, if_false, if_pos hpart, RecvCache.pHeader, hdec, RecvCache.reqPayloadOffset,
    Option.getD_none, List.length_nil, Nat.sub_zero]
  split
  · rfl
  · split <;> rfl

variable (hlen : d.bytes.length < 2 ^ 31) (hpos : pos ≤ d.bytes.length)
  (hget : cache.getD .new = ⟨part, none⟩) (hpart : part.length < AMCReqHeader.size)
  (hsize : (part ++ tail).length = AMCReqHeader.size)
  (hdec : AMCReqHeader.decode ((part ++ tail).map val) = pHeader)
  (ht : d.bytes.drop pos = tail ++ rest)
include hlen hpos hget hpart hsize hdec ht

omit hlen hpos hget hpart hdec in
theorem whole_lengths : d.bytes.length - pos = tail.length + rest.length ∧
    part.length + tail.length = AMCReqHeader.size := by
  have htotal := congrArg List.length ht
  rw [List.length_drop, List.length_append] at htotal
  have hsum := hsize
  rw [List.length_append] at hsum
  exact ⟨htotal, hsum⟩

/-- Of the copies of a pass with a whole header, that of the body alone may leave the chunk. -/
theorem passInBounds_whole (hbegin : pHeader.begin = HEADER_BEGIN) :
    PassInBounds val d (pos, cache) ↔ pHeader.bodylen.toNat ≤ rest.length := by
  obtain ⟨htotal, hsum⟩ := whole_lengths hsize ht
  have hfit : tail.length ≤ d.bytes.length - pos := by omega
  have hcopies := passCopies_whole hsize hpart hdec ht hfit
  rw [if_neg (not_not.mpr hbegin)] at hcopies
  rw [passInBounds_iff hlen hpos hget hpart, hcopies]
  have hsmall : ¬ 2 ^ 31 ≤ min pHeader.bodylen.toNat (d.bytes.length - pos) := by omega
  rw [intLength, if_neg hsmall]
  constructor
  · intro h
    by_contra hbody
    have hpositive : 0 < pHeader.bodylen.toNat := by omega
    rw [if_pos hpositive] at h
    have hsource := (h (by omega) _ (List.mem_cons_of_mem _ (List.mem_singleton_self _))).1
    dsimp only at hsource
    omega
  · intro hbody _ c hc
    rcases List.mem_cons.mp hc with rfl | hc
    · exact ⟨by dsimp only; omega, by dsimp only; omega⟩
    · split at hc
      · obtain rfl := List.mem_singleton.mp hc
        exact ⟨by dsimp only; omega, by dsimp only; omega⟩
      · cases hc

theorem always_refuse [DecidableEq α] (hbegin : pHeader.begin ≠ HEADER_BEGIN) :
    Always (nextPass val d) (PassInBounds val d) (pos, cache) := by
  obtain ⟨htotal, hsum⟩ := whole_lengths hsize ht
  have hfit : tail.length ≤ d.bytes.length - pos := by omega
  have hcopies := passCopies_whole hsize hpart hdec ht hfit
  rw [if_pos hbegin] at hcopies
  refine always_of_last ((passInBounds_iff hlen hpos hget hpart).mpr fun _ c hc => ?_) ?_
  · rw [hcopies] at hc
    obtain rfl := List.mem_singleton.mp hc
    exact ⟨by dsimp only; omega, by dsimp only; omega⟩
  · have hmore : readLeft d.bytes.length pos ≠ 0 := by
      rw [readLeft_eq hpos hlen]
      omega
    rw [nextPass]
    dsimp only
    rw [if_neg hmore, hget, readLeft_eq hpos hlen,
      recvPass_refuse d rfl hsize (by rw [hdec]; exact hbegin) ht (by omega)]

/-- A body that is all there is skipped. -/
theorem nextPass_whole [DecidableEq α] (hbegin : pHeader.begin = HEADER_BEGIN)
    (hbody : pHeader.bodylen.toNat ≤ rest.length) :
    nextPass val d (pos, cache) = some (pos + tail.length + pHeader.bodylen.toNat, none) ∧
      d.bytes.drop (pos + tail.length + pHeader.bodylen.toNat) =
        rest.drop pHeader.bodylen.toNat := by
  obtain ⟨htotal, hsum⟩ := whole_lengths hsize ht
  have hmore : readLeft d.bytes.length pos ≠ 0 := by
    rw [readLeft_eq hpos hlen]
    omega
  obtain ⟨body, hbodylen⟩ : ∃ body, body = rest.take pHeader.bodylen.toNat := ⟨_, rfl⟩
  have hlength : pHeader.bodylen.toNat = body.length := by
    rw [hbodylen, List.length_take]
    omega
  have hdrop : d.bytes.drop (pos + tail.length) = body ++ rest.drop pHeader.bodylen.toNat := by
    rw [hbodylen, List.take_append_drop]
    exact drop_add_of_drop ht
  constructor
  · rw [nextPass]
    dsimp only
    rw [if_neg hmore, hget, readLeft_eq hpos hlen,
      recvPass_header d rfl hsize hdec hbegin ht (by omega),
      bodyPass_whole d hdrop hlength (by omega) (by omega), ← hlength]
  · rw [hlength] at hdrop ⊢
    exact drop_add_of_drop hdrop

end Whole

/-- Exactly a body that is not all in the chunk is read past its end. -/
theorem always_inBounds_iff [DecidableEq α] (hlen : d.bytes.length < 2 ^ 31) (n : Nat) :
    ∀ {pos : Nat} {cache : Option (RecvCache α)} {part : List α}, pos ≤ d.bytes.length →
      cache.getD .new = ⟨part, none⟩ → part.length < AMCReqHeader.size →
      (part ++ d.bytes.drop pos).length ≤ n →
      (Always (nextPass val d) (PassInBounds val d) (pos, cache) ↔
        cutInBody n ((part ++ d.bytes.drop pos).map val) = false) := by
  induction n with
  | zero =>
    intro pos cache part hpos hget _ hn
    have hshort : (part ++ d.bytes.drop pos).length < AMCReqHeader.size :=
      Nat.lt_of_le_of_lt hn (Nat.zero_lt_succ 31)
    exact iff_of_true (always_short hlen hpos hget hshort) rfl
  | succ n ih =>
    intro pos cache part hpos hget hpart hn
    by_cases hshort : (part ++ d.bytes.drop pos).length < AMCReqHeader.size
    · exact iff_of_true (always_short hlen hpos hget hshort)
        (cutInBody_short (by rwa [List.length_map]) _)
    obtain ⟨tail, rest, ht, hsize⟩ : ∃ tail rest, d.bytes.drop pos = tail ++ rest ∧
        (part ++ tail).length = AMCReqHeader.size := by
      rw [List.length_append] at hshort
      refine ⟨_, _, (List.take_append_drop (AMCReqHeader.size - part.length) _).symm, ?_⟩
      rw [List.length_append, List.length_take]
      omega
    obtain ⟨pHeader, hdec⟩ : ∃ h, AMCReqHeader.decode ((part ++ tail).map val) = h := ⟨_, rfl⟩
    have hall : (part ++ d.bytes.drop pos).length = AMCReqHeader.size + rest.length := by
      rw [ht, ← List.append_assoc, List.length_append, hsize]
    have htake : ((part ++ d.bytes.drop pos).map val).take AMCReqHeader.size =
        (part ++ tail).map val := by
      rw [ht, ← List.append_assoc, List.map_append, List.take_left' (by rw [List.length_map, hsize])]
    rw [cutInBody, htake, hdec, List.length_map, if_neg hshort, hall]
    by_cases hbegin : pHeader.begin = HEADER_BEGIN
    · have hiff := passInBounds_whole hlen hpos hget hpart hsize hdec ht hbegin
      rw [if_neg (not_not.mpr hbegin)]
      by_cases hbody : pHeader.bodylen.toNat ≤ rest.length
      · obtain ⟨hnext, hrest⟩ := nextPass_whole hlen hpos hget hpart hsize hdec ht hbegin hbody
        have hskip : ((part ++ d.bytes.drop pos).map val).drop
            (AMCReqHeader.size + pHeader.bodylen.toNat) =
              (([] : List α) ++ d.bytes.drop (pos + tail.length + pHeader.bodylen.toNat)).map val := by
          rw [hrest, List.nil_append, ← List.map_drop, ht, ← List.append_assoc, ← hsize,
            ← List.drop_drop, List.drop_left]
        have htotal := congrArg List.length ht
        rw [List.length_drop, List.length_append] at htotal
        have hpos' : pos + tail.length + pHeader.bodylen.toNat ≤ d.bytes.length := by omega
        have hn' : (([] : List α) ++
            d.bytes.drop (pos + tail.length + pHeader.bodylen.toNat)).length ≤ n := by
          rw [hrest, List.nil_append, List.length_drop]
          unfold AMCReqHeader.size at hall
          omega
        have hih := @ih _ none _ hpos' rfl (Nat.zero_lt_succ 31) hn'
        rw [if_neg (by omega), hskip, ← hih, always_iff]
        constructor
        · exact fun h => h.2 _ hnext
        · refine fun h => ⟨hiff.mpr hbody, fun t ht => ?_⟩
          obtain rfl := Option.some.inj (hnext.symm.trans ht)
          exact h
      · rw [if_pos (by omega)]
        exact iff_of_false (fun h => hbody (hiff.mp (always_iff.mp h).1)) Bool.noConfusion
    · rw [if_pos hbegin]
      exact iff_of_true (always_refuse hlen hpos hget hpart hsize hdec ht hbegin) rfl

theorem recvPass_dispatch_lt {left readPtr readPtr' : Nat} {cache : RecvCache α}
    {frame : ReqFrame α} (hheader : cache.reqHeaderOffset < AMCReqHeader.size) (hleft : left ≠ 0)
    (h : recvPass val d left readPtr cache = .dispatch readPtr' frame) : readPtr < readPtr' := by
  unfold recvPass at h
  dsimp only at h
  split at h
  · cases h
  split at h
  · cases h
  split at h
  · split at h
    · cases h
    split at h
    · cases h
    obtain ⟨rfl, -⟩ := Pass.dispatch.inj h
    omega
  · obtain ⟨rfl, -⟩ := Pass.dispatch.inj h
    omega

theorem recvPass_ne_fault {left readPtr : Nat} {cache : RecvCache α} (hleft : left < 2 ^ 31) :
    recvPass val d left readPtr cache ≠ .fault := by
  intro h
  unfold recvPass at h
  dsimp only at h
  split at h
  · cases h
  split at h
  · cases h
  split at h
  · rw [if_neg (by omega)] at h
    split at h <;> cases h
  · cases h

/-- A pass takes a byte of the chunk at least. -/
theorem recvLoop_isSome (hlen : d.bytes.length < 2 ^ 31) {fuel : Nat} :
    ∀ {pos : Nat} {cache : Option (RecvCache α)}, d.bytes.length - pos < fuel →
      (cache.getD .new).reqHeaderOffset < AMCReqHeader.size →
      Always (nextPass val d) (PassInBounds val d) (pos, cache) →
      (recvLoop val d fuel pos cache).isSome := by
  induction fuel with
  | zero =>
    intro pos cache hfuel
    omega
  | succ fuel ih =>
    intro pos cache hfuel hheader h
    obtain ⟨hhead, htail⟩ := always_iff.mp h
    have hpos : pos ≤ d.bytes.length := hhead.readPtr
    have hleft := readLeft_eq hpos hlen
    rw [recvLoop]
    by_cases hend : readLeft d.bytes.length pos = 0
    · rw [if_pos hend]
      rfl
    rw [if_neg hend]
    cases hpass : recvPass val d (readLeft d.bytes.length pos) pos (cache.getD .new) with
    | wait cache' => rfl
    | refuse => rfl
    | fault => exact absurd hpass (recvPass_ne_fault (by omega))
    | dispatch readPtr frame =>
      have hlt := recvPass_dispatch_lt hheader hend hpass
      have hnext : nextPass val d (pos, cache) = some (readPtr, none) := by
        rw [nextPass]
        dsimp only
        rw [if_neg hend, hpass]
      rw [Option.isSome_map]
      exact ih (by omega) (Nat.zero_lt_succ 31) (htail _ hnext)

end Passes

section Events
variable {α : Type} (val : α → UInt8)

/-- Every pass of the event stays in the chunk. -/
def InBounds (cache : Option (RecvCache α)) (d : Received α) : Prop :=
  Always (nextPass val d.toDelivery) (PassInBounds val d.toDelivery) (0, cache)

/-- An `EVENT_DATA` on the descriptor. -/
def dataEvent (cache : Option (RecvCache α)) (d : Received α) : Option (Option (RecvCache α)) :=
  (recvEvent val (d.bytes.length + 1) cache d.toDelivery).map (·.cache)

/-- What has come of packets not yet complete. -/
def pending (cache : Option (RecvCache α)) (d : Received α) : List UInt8 :=
  ((cache.getD .new).reqHeaderBuf ++ d.bytes).map val

/-- The chunk does not end in the body of a packet. -/
def EndsOutsideBody (cache : Option (RecvCache α)) (d : Received α) : Prop :=
  cutInBody (pending val cache d).length (pending val cache d) = false

instance (cache : Option (RecvCache α)) (d : Received α) :
    Decidable (EndsOutsideBody val cache d) := inferInstanceAs (Decidable (_ = false))

variable {val} {cache : Option (RecvCache α)} {d : Received α}

theorem inBounds_iff_endsOutsideBody [DecidableEq α] (h : CleanOf (fun _ => True) cache) :
    InBounds val cache d ↔ EndsOutsideBody val cache d := by
  obtain ⟨part, hget, hpart, -⟩ := h.getD
  have hpending : pending val cache d = (part ++ d.bytes.drop 0).map val := by
    rw [pending, hget, List.drop_zero]
  rw [EndsOutsideBody, hpending]
  exact always_inBounds_iff d.len_lt _ (Nat.zero_le _) hget hpart (List.length_map val).ge

theorem cleanOf_dataEvent [DecidableEq α] (h : CleanOf (fun _ => True) cache)
    (hends : EndsOutsideBody val cache d) {cache' : Option (RecvCache α)}
    (hevent : dataEvent val cache d = some cache') : CleanOf (fun _ => True) cache' := by
  obtain ⟨r, hr, rfl⟩ := Option.map_eq_some_iff.mp hevent
  refine (recvLoop_clean d.toDelivery (fun _ _ => trivial) d.len_lt (Nat.zero_le _) h ?_ hends hr).1
  rw [pending, List.length_map, List.drop_zero]

/-- An event whose passes stay in the chunk comes to its end. -/
theorem dataEvent_inBounds [DecidableEq α] (h : CleanOf (fun _ => True) cache)
    (hin : InBounds val cache d) :
    ∃ cache', dataEvent val cache d = some cache' ∧ CleanOf (fun _ => True) cache' := by
  obtain ⟨part, hget, hpart, -⟩ := h.getD
  have hheader : (cache.getD .new).reqHeaderOffset < AMCReqHeader.size := by
    rw [hget]
    exact hpart
  have hsome : (recvEvent val (d.bytes.length + 1) cache d.toDelivery).isSome :=
    recvLoop_isSome d.len_lt (Nat.lt_succ_of_le (Nat.sub_le _ _)) hheader hin
  obtain ⟨r, hr⟩ := Option.isSome_iff_exists.mp hsome
  have hevent : dataEvent val cache d = some r.cache := Option.map_eq_some_iff.mpr ⟨r, hr, rfl⟩
  exact ⟨r.cache, hevent,
    cleanOf_dataEvent h ((inBounds_iff_endsOutsideBody h).mp hin) hevent⟩

end Events

end LocalSocketServer

end Hardcoder
