import Mathlib.Algebra.GroupWithZero.Nat
import Mathlib.Data.List.Basic
import Mathlib.Tactic.Cases

/-! Byte streams cut into chunks. A receiver is handed the chunks one after the
other, each at some address whose memory goes on behind the chunk; a stream is a
concatenation of frames, and a chunk may end anywhere in a frame. -/

namespace Stream
set_option autoImplicit false

universe u v
variable {α : Type u} {φ : Type v}

/-- A received chunk and the contents of the memory that follows it. -/
structure Delivery (α : Type u) where
  bytes : List α
  beyond : Nat → α

namespace Delivery

def get (d : Delivery α) (i : Nat) : α := (d.bytes[i]?).getD (d.beyond (i - d.bytes.length))

/-- `memcpy` of `n` elements from offset `pos` on, wherever the chunk ends. -/
def read (d : Delivery α) (pos n : Nat) : List α := (List.range n).map fun i => d.get (pos + i)

@[simp] theorem length_read (d : Delivery α) (pos n : Nat) : (d.read pos n).length = n := by
  simp [read]

@[simp] theorem read_zero (d : Delivery α) (pos : Nat) : d.read pos 0 = [] := rfl

theorem getElem?_read (d : Delivery α) {pos n i : Nat} (hi : i < n) :
    (d.read pos n)[i]? = some (d.get (pos + i)) := by
  simp [read, hi]

theorem get_beyond (d : Delivery α) (i : Nat) : d.get (d.bytes.length + i) = d.beyond i := by
  simp [get]

theorem read_within (d : Delivery α) {pos n : Nat} (h : pos + n ≤ d.bytes.length) :
    d.read pos n = (d.bytes.drop pos).take n := by
  apply List.ext_getElem?
  intro i
  by_cases hi : i < n
  · have hlt : pos + i < d.bytes.length := by omega
    rw [getElem?_read d hi, List.getElem?_take, if_pos hi, List.getElem?_drop]
    simp [get, hlt]
  · rw [List.getElem?_eq_none (by simpa using Nat.le_of_not_gt hi), List.getElem?_take, if_neg hi]

theorem read_front (d : Delivery α) {pos : Nat} {xs rest : List α}
    (h : d.bytes.drop pos = xs ++ rest) : d.read pos xs.length = xs := by
  have hlen := congrArg List.length h
  simp only [List.length_drop, List.length_append] at hlen
  by_cases hx : xs = []
  · simp [hx]
  · have hpos : 0 < xs.length := List.length_pos_iff.mpr hx
    rw [read_within d (by omega), h, List.take_left]

/-- The first element read behind the chunk shows that the copy is not the start of `xs`. -/
theorem read_not_front (d : Delivery α) {pos n : Nat} {xs : List α} (hpos : pos ≤ d.bytes.length)
    (hn : d.bytes.length - pos < n) (hx : xs[d.bytes.length - pos]? ≠ some (d.beyond 0)) :
    ¬ d.read pos n <+: xs := by
  rintro ⟨rest, hrest⟩
  have hread : (d.read pos n)[d.bytes.length - pos]? = _ := d.getElem?_read hn
  rw [Nat.add_sub_of_le hpos, show d.get d.bytes.length = d.beyond 0 from d.get_beyond 0] at hread
  apply hx
  rw [← hrest, List.getElem?_append_left (by simpa using hn), hread]

end Delivery

theorem drop_add_of_drop {xs ys zs : List α} {n : Nat} (h : xs.drop n = ys ++ zs) :
    xs.drop (n + ys.length) = zs := by
  rw [← List.drop_drop, h, List.drop_left]

theorem exists_chunks (lens : List Nat) : ∀ {xs : List α}, lens.sum = xs.length →
    ∃ cs : List (List α), cs.map List.length = lens ∧ cs.flatten = xs := by
  induction lens with
  | nil =>
    intro xs h
    exact ⟨[], rfl, (List.length_eq_zero_iff.mp h.symm).symm⟩
  | cons n lens ih =>
    intro xs h
    rw [List.sum_cons] at h
    have hrest : lens.sum = (xs.drop n).length := by
      rw [List.length_drop]
      omega
    obtain ⟨cs, hcs, hflat⟩ := ih hrest
    refine ⟨xs.take n :: cs, ?_, by rw [List.flatten_cons, hflat, List.take_append_drop]⟩
    rw [List.map_cons, hcs, List.length_take, Nat.min_eq_left (by omega)]

section Frames
variable (bytes : φ → List α)

def wire (fs : List φ) : List α := (fs.map bytes).flatten

@[simp] theorem wire_nil : wire bytes [] = [] := rfl

@[simp] theorem wire_cons (f : φ) (fs : List φ) : wire bytes (f :: fs) = bytes f ++ wire bytes fs := rfl

@[simp] theorem wire_append (fs gs : List φ) :
    wire bytes (fs ++ gs) = wire bytes fs ++ wire bytes gs := by
  simp [wire]

/-- `part` is what has been received of the first frame of `fs`, not all of it. -/
def Begun (part : List α) : List φ → Prop
  | [] => part = []
  | f :: _ => part.length < (bytes f).length ∧ part <+: bytes f

theorem exists_cut {fs : List φ} {xs ys : List α}
    (h : xs ++ ys = wire bytes fs) :
    ∃ done rest part, fs = done ++ rest ∧ xs = wire bytes done ++ part ∧ Begun bytes part rest := by
  induction fs generalizing xs with
  | nil =>
    have hx : xs = [] := (List.append_eq_nil_iff.mp h).1
    exact ⟨[], [], [], rfl, by simpa using hx, rfl⟩
  | cons f fs ih =>
    rw [wire_cons] at h
    by_cases hlen : xs.length < (bytes f).length
    · have hpre : xs <+: bytes f := by
        have hp : xs <+: bytes f ++ wire bytes fs := ⟨ys, h⟩
        exact List.prefix_of_prefix_length_le hp (List.prefix_append _ _) (Nat.le_of_lt hlen)
      exact ⟨[], f :: fs, xs, rfl, by simp, hlen, hpre⟩
    · obtain ⟨tail, rfl⟩ : bytes f <+: xs :=
        List.prefix_of_prefix_length_le (List.prefix_append _ _) ⟨ys, h⟩ (by omega)
      rw [List.append_assoc, List.append_cancel_left_eq] at h
      obtain ⟨done, rest, part, rfl, rfl, hpart⟩ := ih h
      exact ⟨f :: done, rest, part, rfl, by simp, hpart⟩

theorem length_wire (fs : List φ) :
    (wire bytes fs).length = (fs.map fun f => (bytes f).length).sum := by
  simp [wire, List.length_flatten, Function.comp_def]

end Frames

section Cuts
variable {size : φ → Nat} {zone : φ → List φ → Nat → Prop}

/-- No chunk ends in a forbidden zone, seen from the sizes of frames and chunks.
`zone f later n` forbids a cut after `n` elements of frame `f` when the frames
`later` follow it; `k` elements of the first frame came before the first chunk. -/
def NoCut (size : φ → Nat) (zone : φ → List φ → Nat → Prop) (k : Nat) (fs : List φ)
    (lens : List Nat) : Prop :=
  ∀ lens₁ lens₂ fs₁ f fs₂ n, lens = lens₁ ++ lens₂ → fs = fs₁ ++ f :: fs₂ →
    k + lens₁.sum = (fs₁.map size).sum + n → n < size f → ¬ zone f fs₂ n

theorem NoCut.tail {k k' c : Nat} {done fs : List φ} {lens : List Nat}
    (h : NoCut size zone k (done ++ fs) (c :: lens))
    (hk : k + c = (done.map size).sum + k') : NoCut size zone k' fs lens := by
  intro lens₁ lens₂ fs₁ f fs₂ n hlens hfs hn hlt
  refine h (c :: lens₁) lens₂ (done ++ fs₁) f fs₂ n (by rw [hlens]; rfl) (by rw [hfs]; simp) ?_ hlt
  simp only [List.sum_cons, List.map_append, List.sum_append]
  omega

theorem NoCut.head {k n c : Nat} {done fs : List φ} {f : φ} {lens : List Nat}
    (h : NoCut size zone k (done ++ f :: fs) (c :: lens))
    (hn : k + c = (done.map size).sum + n) (hlt : n < size f) : ¬ zone f fs n :=
  h [c] lens done f fs n rfl rfl (by simpa using hn) hlt

theorem NoCut.nil {k : Nat} {fs : List φ}
    (hstart : ∀ f later, fs = f :: later → k < size f ∧ ¬ zone f later k) :
    NoCut size zone k fs [] := by
  intro lens₁ lens₂ fs₁ f fs₂ n hlens hfs hn hlt
  have hnil : lens₁ = [] := (List.append_eq_nil_iff.mp hlens.symm).1
  rw [hnil, List.sum_nil] at hn
  cases fs₁ with
  | nil =>
    have hkn : k = n := by simpa using hn
    exact hkn ▸ (hstart f fs₂ hfs).2
  | cons g fs₁ =>
    have hg := (hstart g _ hfs).1
    simp only [List.map_cons, List.sum_cons] at hn
    omega

/-- Whether a later chunk ends in a forbidden zone is seen on what follows the
first chunk; a cut before the first chunk is one after `k` elements. -/
theorem NoCut.cons {k n c : Nat} {done fs : List φ} {lens : List Nat}
    (hstart : ∀ f later, done ++ fs = f :: later → k < size f ∧ ¬ zone f later k)
    (hn : k + c = (done.map size).sum + n)
    (htail : NoCut size zone n fs lens) : NoCut size zone k (done ++ fs) (c :: lens) := by
  intro lens₁ lens₂ fs₁ f fs₂ m hlens hfs hm hlt
  cases lens₁ with
  | nil =>
    -- a cut before the first chunk lies in the first frame
    cases fs₁ with
    | nil =>
      have hkm : k = m := by simpa using hm
      exact hkm ▸ (hstart f fs₂ hfs).2
    | cons g fs₁ =>
      have hg := (hstart g _ hfs).1
      simp only [List.sum_nil, List.map_cons, List.sum_cons] at hm
      omega
  | cons c' lens₁ =>
    obtain ⟨rfl, rfl⟩ := List.cons.inj hlens
    rw [List.sum_cons] at hm
    rcases List.append_eq_append_iff.mp hfs with ⟨gs, rfl, hfs'⟩ | ⟨gs, rfl, hfs'⟩
    · refine htail lens₁ lens₂ gs f fs₂ m rfl hfs' ?_ hlt
      rw [List.map_append, List.sum_append] at hm
      omega
    · cases gs with
      | nil =>
        refine htail lens₁ lens₂ [] f fs₂ m rfl hfs'.symm ?_ hlt
        simp only [List.append_nil] at hn
        simp only [List.map_nil, List.sum_nil]
        omega
      | cons g gs =>
        -- frame `f` is whole in `done`, before the end of the first chunk
        obtain ⟨rfl, -⟩ := List.cons.inj hfs'
        simp only [List.map_append, List.sum_append, List.map_cons, List.sum_cons] at hn
        omega

theorem NoCut.comap {ψ : Type v} {g : ψ → φ} {k : Nat} {ps : List ψ} {lens : List Nat}
    (h : NoCut size zone k (ps.map g) lens) :
    NoCut (fun p => size (g p)) (fun p later => zone (g p) (later.map g)) k ps lens := by
  intro lens₁ lens₂ ps₁ p ps₂ n hlens hps hn hlt
  refine h lens₁ lens₂ (ps₁.map g) (g p) (ps₂.map g) n hlens (by rw [hps]; simp) ?_ hlt
  simpa [Function.comp_def] using hn

end Cuts

section Inside
variable (bytes : φ → List α) (header : Nat)

/-- After `n` elements the stream is inside a frame, behind its header of the given length. -/
def Inside : List φ → Nat → Prop
  | [], _ => False
  | f :: fs, n =>
    if n < (bytes f).length then header ≤ n else Inside fs (n - (bytes f).length)

instance decidableInside : ∀ (fs : List φ) (n : Nat), Decidable (Inside bytes header fs n)
  | [], _ => inferInstanceAs (Decidable False)
  | f :: fs, n =>
    have := decidableInside fs (n - (bytes f).length)
    inferInstanceAs (Decidable (if n < (bytes f).length then header ≤ n
      else Inside bytes header fs (n - (bytes f).length)))

variable {bytes header}

theorem inside_append {done rest : List φ} {n : Nat} :
    Inside bytes header (done ++ rest) ((wire bytes done).length + n) ↔ Inside bytes header rest n := by
  induction done with
  | nil => rw [wire_nil, List.length_nil, Nat.zero_add, List.nil_append]
  | cons f done ih =>
    rw [wire_cons, List.length_append, Nat.add_assoc, List.cons_append, Inside,
      if_neg (Nat.not_lt.mpr (Nat.le_add_right _ _)), Nat.add_sub_cancel_left, ih]

/-- What has come of the next frame is shorter than its header. -/
theorem length_part_of_not_inside {done rest : List φ} {part : List α} (hheader : 0 < header)
    (hbegun : Begun bytes part rest)
    (h : ¬ Inside bytes header (done ++ rest) ((wire bytes done).length + part.length)) :
    part.length < header := by
  rw [inside_append] at h
  cases rest with
  | nil =>
    have hnil : part = [] := hbegun
    rw [hnil]
    exact hheader
  | cons f later =>
    rw [Inside, if_pos hbegun.1] at h
    exact Nat.not_le.mp h

end Inside

end Stream
