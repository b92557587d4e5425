import Hardcoder.LocalSocket

/-! What a request is assembled from. The cache of a partly received request is kept
under the descriptor number and outlives the connection; it is its connection's own
as long as no new connection finds one under its number. -/

namespace Hardcoder
open Stream Runs
set_option autoImplicit false

namespace LocalSocketServer

/-- The bytes of a connection that the cache does not hold whole packets of: after
some packets and a header they end before the end of the body. -/
def cutInBody : Nat → List UInt8 → Bool
  | 0, _ => false
  | n + 1, bytes =>
    if bytes.length < AMCReqHeader.size then false
    else
      let pHeader := AMCReqHeader.decode (bytes.take AMCReqHeader.size)
      if pHeader.begin ≠ HEADER_BEGIN then false
      else if bytes.length < AMCReqHeader.size + pHeader.bodylen.toNat then true
      else cutInBody n (bytes.drop (AMCReqHeader.size + pHeader.bodylen.toNat))

/-- All bytes were received on connection `c`. -/
def From (c : Conn) (xs : List Tagged) : Prop := ∀ b ∈ xs, b.origin = some c

/-- The call's bytes were all received on the connection it was made for. -/
def Call.Isolated (call : Call) : Prop :=
  ∃ c, call.conn = some c ∧ From c call.frame.headerBuf ∧ From c (call.frame.payload.getD [])

/-- A cache entry that holds a begun header of such bytes and nothing else. -/
def CleanOf {α : Type} (Q : α → Prop) (cache : Option (RecvCache α)) : Prop :=
  ∀ k, cache = some k →
    k.reqPayload = none ∧ k.reqHeaderBuf.length < AMCReqHeader.size ∧ ∀ b ∈ k.reqHeaderBuf, Q b

theorem cleanOf_none {α : Type} (Q : α → Prop) : CleanOf Q none := fun _ hk => by cases hk

/-- Of bytes of connection `c`. -/
abbrev Clean (c : Conn) (cache : Option (RecvCache Tagged)) : Prop :=
  CleanOf (fun b => b.origin = some c) cache

def begunHeader (cache : Option (RecvCache Tagged)) : List Tagged := (cache.getD .new).reqHeaderBuf

theorem CleanOf.getD {α : Type} {Q : α → Prop} {cache : Option (RecvCache α)}
    (h : CleanOf Q cache) : ∃ part, cache.getD .new = ⟨part, none⟩ ∧
      part.length < AMCReqHeader.size ∧ ∀ b ∈ part, Q b := by
  cases cache with
  | none => exact ⟨[], rfl, Nat.zero_lt_succ 31, fun _ hb => by cases hb⟩
  | some k =>
    obtain ⟨hpayload, hlen, hfrom⟩ := h k rfl
    obtain ⟨buf, payload⟩ := k
    obtain rfl : payload = none := hpayload
    exact ⟨buf, rfl, hlen, hfrom⟩

/-- An event that does not end in a body leaves a begun header, and makes its calls of the
bytes received. -/
theorem recvLoop_clean {α : Type} [DecidableEq α] {val : α → UInt8} {Q : α → Prop} (d : Delivery α)
    (hd : ∀ b ∈ d.bytes, Q b) (hlen : d.bytes.length < 2 ^ 31) {fuel : Nat} :
    ∀ {pos n : Nat} {cache : Option (RecvCache α)} {r : RecvResult α},
      pos ≤ d.bytes.length → CleanOf Q cache →
      ((cache.getD .new).reqHeaderBuf ++ d.bytes.drop pos).length ≤ n →
      cutInBody n (((cache.getD .new).reqHeaderBuf ++ d.bytes.drop pos).map val) = false →
      recvLoop val d fuel pos cache = some r → CleanOf Q r.cache ∧
        ∀ f ∈ r.frames, (∀ b ∈ f.headerBuf, Q b) ∧ ∀ b ∈ f.payload.getD [], Q b := by
  induction fuel with
  | zero =>
    intro pos n cache r _ _ _ _ h
    cases h
  | succ fuel ih =>
    intro pos n cache r hpos hclean hn hcut h
    obtain ⟨part, hget, hbegun, hfrom⟩ := hclean.getD
    rw [hget] at hn hcut
    have hdrop : ∀ b ∈ d.bytes.drop pos, Q b := fun b hb => hd b (List.mem_of_mem_drop hb)
    rw [recvLoop, readLeft_eq hpos hlen] at h
    split at h
    · obtain rfl := Option.some.inj h
      exact ⟨hclean, fun f hf => by cases hf⟩
    rename_i hleft
    rw [hget] at h
    by_cases hshort : (part ++ d.bytes.drop pos).length < AMCReqHeader.size
    · rw [recvPass_part d hshort (List.length_drop).symm] at h
      obtain rfl := Option.some.inj h
      refine ⟨fun k hk => ?_, fun f hf => by cases hf⟩
      obtain rfl := Option.some.inj hk
      exact ⟨rfl, hshort, List.forall_mem_append.mpr ⟨hfrom, hdrop⟩⟩
    -- the header is completed by `tail`
    obtain ⟨tail, rest, ht, hsize⟩ : ∃ tail rest, d.bytes.drop pos = tail ++ rest ∧
        (part ++ tail).length = AMCReqHeader.size := by
      rw [List.length_append] at hshort
      refine ⟨_, _, (List.take_append_drop (AMCReqHeader.size - part.length) _).symm, ?_⟩
      rw [List.length_append, List.length_take]
      omega
    have htotal := congrArg List.length ht
    rw [List.length_drop, List.length_append] at htotal
    rw [ht] at hdrop hn hcut
    obtain ⟨htail, hrest⟩ := List.forall_mem_append.mp hdrop
    rw [← List.append_assoc] at hcut hn
    rw [List.length_append, hsize] at hn
    obtain ⟨n, rfl⟩ : ∃ m, n = m + 1 := ⟨n - 1, by unfold AMCReqHeader.size at hn; omega⟩
    have htake : ((part ++ tail ++ rest).map val).take AMCReqHeader.size =
        (part ++ tail).map val := by
      rw [List.map_append, List.take_left' (by rw [List.length_map, hsize])]
    simp only [cutInBody, htake, List.length_map,
      @List.length_append _ (part ++ tail), hsize,
      if_neg (Nat.not_lt.mpr (Nat.le_add_right AMCReqHeader.size rest.length))] at hcut
    by_cases hbegin : (AMCReqHeader.decode ((part ++ tail).map val)).begin = HEADER_BEGIN
    · generalize hhead : AMCReqHeader.decode ((part ++ tail).map val) = pHeader at hcut hbegin
      rw [if_neg (not_not.mpr hbegin)] at hcut
      have hbody : pHeader.bodylen.toNat ≤ rest.length := by
        by_contra hlt
        rw [if_pos (by omega)] at hcut
        cases hcut
      rw [if_neg (by omega)] at hcut
      have hbodylen : pHeader.bodylen.toNat = (rest.take pHeader.bodylen.toNat).length := by
        rw [List.length_take]
        omega
      have hbodydrop : d.bytes.drop (pos + tail.length) =
          rest.take pHeader.bodylen.toNat ++ rest.drop pHeader.bodylen.toNat := by
        rw [List.take_append_drop]
        exact drop_add_of_drop ht
      rw [recvPass_header d rfl hsize hhead hbegin ht (by omega),
        bodyPass_whole d hbodydrop hbodylen (by omega) (by omega)] at h
      obtain ⟨r', hr', rfl⟩ := Option.map_eq_some_iff.mp h
      have hnext : d.bytes.drop (pos + tail.length + (rest.take pHeader.bodylen.toNat).length) =
          rest.drop pHeader.bodylen.toNat := drop_add_of_drop hbodydrop
      have hcutnext : cutInBody n (([] ++ d.bytes.drop
          (pos + tail.length + (rest.take pHeader.bodylen.toNat).length)).map val) = false := by
        have hskip : (part ++ tail ++ rest).drop (AMCReqHeader.size + pHeader.bodylen.toNat) =
            rest.drop pHeader.bodylen.toNat := by
          rw [← hsize, ← List.drop_drop, List.drop_left]
        rw [← List.map_drop, hskip] at hcut
        rw [hnext]
        exact hcut
      obtain ⟨hclean', hframes⟩ := ih (by rw [← hbodylen]; omega) (cleanOf_none Q) (by
        rw [hnext]
        simp only [RecvCache.new, Option.getD_none, List.nil_append, List.length_drop]
        omega) hcutnext hr'
      refine ⟨hclean', fun f hf => ?_⟩
      rcases List.mem_cons.mp hf with rfl | hf
      · refine ⟨List.forall_mem_append.mpr ⟨hfrom, htail⟩, fun b hb => hrest b ?_⟩
        dsimp only at hb
        split at hb
        · cases hb
        · exact List.mem_of_mem_take hb
      · exact hframes f hf
    · rw [recvPass_refuse d rfl hsize hbegin ht (by omega)] at h
      obtain rfl := Option.some.inj h
      exact ⟨cleanOf_none Q, fun f hf => by cases hf⟩

theorem from_szBuf (c : Conn) (bytes : List UInt8) (beyond : Nat → UInt8) :
    From c (Sys.szBuf c bytes beyond).bytes := by
  intro b hb
  obtain ⟨x, -, rfl⟩ := List.mem_map.mp hb
  rfl

/-- Every open connection's cache entry is its own, and so was every call's. -/
structure Isolated (s : Sys) : Prop where
  caches : ∀ fd c, s.conns fd = some c → Clean c (s.mapRecvCache fd)
  calls : ∀ call ∈ s.calls, call.Isolated

def Action.receives : Action → Option (List UInt8)
  | .scan (.recv bytes _ _ _) => some bytes
  | _ => none

def Sys.scanned (s : Sys) : Option Fd :=
  match s.pc with
  | .scan i _ => some i
  | _ => none

/-- All that the connection scanned has sent of packets not yet complete, with `bytes`. -/
def Sys.pendingBytes (s : Sys) (i : Fd) (bytes : List UInt8) : List UInt8 :=
  (begunHeader (s.mapRecvCache i)).map Tagged.val ++ bytes

/-- No connection is accepted under a number that has a cache entry, and no chunk ends
in the body of a packet. -/
def KeepsApart (s : Sys) (a : Action) : Prop :=
  (∀ fd ∈ a.accepts, s.mapRecvCache fd = none) ∧
    ∀ i ∈ s.scanned, ∀ bytes ∈ a.receives,
      cutInBody (s.pendingBytes i bytes).length (s.pendingBytes i bytes) = false

instance (s : Sys) (a : Action) : Decidable (KeepsApart s a) :=
  inferInstanceAs (Decidable (_ ∧ _))

theorem isolated_init (m_fd m_pipefd : Fd) : Isolated (init m_fd m_pipefd) :=
  ⟨fun _ _ h => (by cases h), fun _ h => (by cases h)⟩

theorem Isolated.closed {s : Sys} (h : Isolated s) {i fd : Fd} {c : Conn}
    (hc : Function.update s.conns i none fd = some c) : Clean c (s.mapRecvCache fd) := by
  by_cases hfd : fd = i
  · rw [hfd, Function.update_self] at hc
    cases hc
  · rw [Function.update_of_ne hfd] at hc
    exact h.caches fd c hc

theorem Isolated.step {s s' : Sys} {a : Action} (h : Isolated s) (hkeep : KeepsApart s a)
    (hstep : step s a = some s') : Isolated s' := by
  cases step_effect hstep with
  | quiet hconns hcache hcalls _ _ | sent _ _ hconns hcache hcalls _ _ =>
    refine ⟨fun fd c hc => ?_, fun call hcall => h.calls call (hcalls ▸ hcall)⟩
    rw [hconns] at hc
    rw [hcache]
    exact h.caches fd c hc
  | sendFailed _ _ hconns hcache hcalls _ _ | recvError _ hconns hcache hcalls _ _ =>
    refine ⟨fun fd c hc => ?_, fun call hcall => h.calls call (hcalls ▸ hcall)⟩
    rw [hconns] at hc
    rw [hcache]
    exact h.closed hc
  | notified fd resp hs' =>
    subst hs'
    exact ⟨h.caches, h.calls⟩
  | accepted fd uid _ hconns hcache hcalls _ _ =>
    refine ⟨fun fd' c hc => ?_, fun call hcall => h.calls call (hcalls ▸ hcall)⟩
    rw [hcache]
    by_cases hfd : fd' = fd
    · rw [hfd, hkeep.1 fd rfl]
      exact cleanOf_none _
    · rw [hconns, Function.update_of_ne hfd] at hc
      exact h.caches fd' c hc
  | received i tmpSet c bytes beyond resps fuel r hpc hc hlen hr hs' =>
    subst hs'
    have hcut := hkeep.2 i (by rw [Sys.scanned, hpc]; rfl) bytes rfl
    obtain ⟨hclean, hframes⟩ := recvLoop_clean (Sys.szBuf c bytes beyond)
      (from_szBuf c bytes beyond) (by simp only [Sys.szBuf, List.length_map]; omega)
      (n := (s.pendingBytes i bytes).length) (Nat.zero_le _) (h.caches i c hc)
      (by simp [Sys.szBuf, Sys.pendingBytes, begunHeader])
      (by simpa [Sys.szBuf, Sys.pendingBytes, begunHeader, Function.comp_def] using hcut) hr
    refine ⟨fun fd c' hc' => ?_, fun call hcall => ?_⟩
    · change Clean c' (Function.update s.mapRecvCache i r.cache fd)
      by_cases hfd : fd = i
      · subst hfd
        obtain rfl := Option.some.inj (hc.symm.trans hc')
        rw [Function.update_self]
        exact hclean
      · rw [Function.update_of_ne hfd]
        exact h.caches fd c' hc'
    · rcases List.mem_append.mp hcall with hcall | hcall
      · exact h.calls call hcall
      · obtain ⟨f, hf, rfl⟩ := List.mem_map.mp hcall
        exact ⟨c, hc, hframes f hf⟩

/-- In a run that accepts no connection under a number with a cache entry, and in which
no chunk ends in a body, every request is made of bytes of its own connection. -/
theorem connectionIsolation {m_fd m_pipefd : Fd} {as : List Action} {s : Sys}
    (hrun : run step (init m_fd m_pipefd) as = some s)
    (hkeep : Along step KeepsApart (init m_fd m_pipefd) as) : ∀ call ∈ s.calls, call.Isolated :=
  (run_invariant Isolated.step (isolated_init m_fd m_pipefd) hkeep hrun).calls

theorem connectionIsolation_twoChunks : ∃ s,
    run step (init 5 3) (loopPass 5 (.accept (some (6, 0))) ++
      (loopPass 6 (.recv (emptyRequest.take 16) (fun _ => 0) (fun _ => none) 2) ++
        loopPass 6 (.recv (emptyRequest.drop 16) (fun _ => 0) (fun _ => none) 2))) = some s ∧
    ∀ call ∈ s.calls, call.Isolated := by
  have hsome : (run step (init 5 3) (loopPass 5 (.accept (some (6, 0))) ++
      (loopPass 6 (.recv (emptyRequest.take 16) (fun _ => 0) (fun _ => none) 2) ++
        loopPass 6 (.recv (emptyRequest.drop 16) (fun _ => 0) (fun _ => none) 2)))).isSome := rfl
  obtain ⟨s, hs⟩ := Option.isSome_iff_exists.mp hsome
  exact ⟨s, hs, connectionIsolation hs (along_of_check rfl)⟩

/-- A client leaves behind half a header; the next one under its number sends the other
half, and both make a request. -/
theorem connectionIsolation_reuse : ∃ s,
    run step (init 5 3) (loopPass 5 (.accept (some (6, 0))) ++
      (loopPass 6 (.recv (emptyRequest.take 16) (fun _ => 0) (fun _ => none) 2) ++
        (loopPass 6 .recvError ++ (loopPass 5 (.accept (some (6, 1))) ++
          loopPass 6 (.recv (emptyRequest.drop 16) (fun _ => 0) (fun _ => none) 2))))) = some s ∧
    ¬ ∀ call ∈ s.calls, call.Isolated := by
  have hcalls : (run step (init 5 3) (loopPass 5 (.accept (some (6, 0))) ++
      (loopPass 6 (.recv (emptyRequest.take 16) (fun _ => 0) (fun _ => none) 2) ++
        (loopPass 6 .recvError ++ (loopPass 5 (.accept (some (6, 1))) ++
          loopPass 6 (.recv (emptyRequest.drop 16) (fun _ => 0) (fun _ => none) 2)))))).map
      (fun s => s.calls.map fun call => (call.conn, call.frame.headerBuf.map Tagged.origin)) =
      some [(some 1, List.replicate 16 (some 0) ++ List.replicate 16 (some 1))] := rfl
  obtain ⟨s, hs, hone⟩ := Option.map_eq_some_iff.mp hcalls
  refine ⟨s, hs, fun hall => ?_⟩
  obtain ⟨call, hcall, heq⟩ := List.mem_map.mp (hone ▸ List.mem_singleton_self _)
  obtain ⟨hconn, horigin⟩ := Prod.mk.inj heq
  obtain ⟨c, hc, hfrom, -⟩ := hall call hcall
  obtain rfl := Option.some.inj (hconn.symm.trans hc)
  have hmem : some 0 ∈ call.frame.headerBuf.map Tagged.origin := by
    rw [horigin]
    decide
  obtain ⟨b, hb, hzero⟩ := List.mem_map.mp hmem
  exact absurd (hzero.symm.trans (hfrom b hb)) (by decide)

end LocalSocketServer

end Hardcoder
