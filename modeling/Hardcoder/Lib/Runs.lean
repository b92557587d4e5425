import Mathlib.Logic.Relation
import Mathlib.Tactic.Cases

/-! Runs of a transition system given by a partial step function: `step s a = none`
when the action `a` is not possible in the state `s`. -/

namespace Runs
set_option autoImplicit false

universe u v
variable {σ : Type u} {α : Type v} (step : σ → α → Option σ)

def run : σ → List α → Option σ
  | s, [] => some s
  | s, a :: as => (step s a).bind fun s' => run s' as

/-- Every step of the run meets `P` in the state it is taken in. -/
def Along (P : σ → α → Prop) : σ → List α → Prop
  | _, [] => True
  | s, a :: as => P s a ∧ ∀ s', step s a = some s' → Along P s' as

/-- `Along`, evaluated. -/
def check (p : σ → α → Bool) : σ → List α → Bool
  | _, [] => true
  | s, a :: as => p s a && (step s a).all fun s' => check p s' as

variable {step}

@[simp] theorem run_nil (s : σ) : run step s [] = some s := rfl

theorem run_cons {s s' : σ} {a : α} {as : List α} :
    run step s (a :: as) = some s' ↔ ∃ t, step s a = some t ∧ run step t as = some s' :=
  Option.bind_eq_some_iff

theorem run_append {s s' : σ} {as bs : List α} :
    run step s (as ++ bs) = some s' ↔ ∃ t, run step s as = some t ∧ run step t bs = some s' := by
  induction as generalizing s with
  | nil => simp
  | cons a as ih =>
    rw [List.cons_append, run_cons]
    constructor
    · rintro ⟨u, hu, h⟩
      obtain ⟨t, ht, h⟩ := ih.mp h
      exact ⟨t, run_cons.mpr ⟨u, hu, ht⟩, h⟩
    · rintro ⟨t, ht, h⟩
      obtain ⟨u, hu, ht⟩ := run_cons.mp ht
      exact ⟨u, hu, ih.mpr ⟨t, ht, h⟩⟩

/-- What every step that meets `P` keeps holds at the end of every run of such steps. -/
theorem run_invariant {P : σ → α → Prop} {Inv : σ → Prop}
    (hstep : ∀ {s a s'}, Inv s → P s a → step s a = some s' → Inv s') {as : List α} :
    ∀ {s s' : σ}, Inv s → Along step P s as → run step s as = some s' → Inv s' := by
  induction as with
  | nil =>
    intro s s' hs _ h
    obtain rfl := Option.some.inj h
    exact hs
  | cons a as ih =>
    intro s s' hs halong h
    obtain ⟨t, ht, h⟩ := run_cons.mp h
    exact ih (hstep hs halong.1 ht) (halong.2 t ht) h

theorem along_of_check {P : σ → α → Prop} [∀ s a, Decidable (P s a)] {as : List α} :
    ∀ {s : σ}, check step (fun s a => decide (P s a)) s as = true → Along step P s as := by
  induction as with
  | nil => exact fun _ => trivial
  | cons a as ih =>
    intro s h
    rw [check, Bool.and_eq_true, decide_eq_true_eq, Option.all_eq_true] at h
    exact ⟨h.1, fun s' hs' => ih (h.2 s' hs')⟩

theorem along_of_forall {P : σ → α → Prop} (h : ∀ s a, P s a) {as : List α} :
    ∀ {s : σ}, Along step P s as := by
  induction as with
  | nil => exact fun {_} => trivial
  | cons a as ih => exact fun {s} => ⟨h s a, fun _ _ => ih⟩

/-- When every step is possible, what does not depend on the state is met along a run just
when each action meets it. -/
theorem along_iff_forall {P : α → Prop} (htotal : ∀ s a, (step s a).isSome) {as : List α} :
    ∀ {s : σ}, Along step (fun _ a => P a) s as ↔ ∀ a ∈ as, P a := by
  induction as with
  | nil => exact iff_of_true trivial fun _ ha => (nomatch ha)
  | cons a as ih =>
    intro s
    obtain ⟨t, ht⟩ := Option.isSome_iff_exists.mp (htotal s a)
    rw [List.forall_mem_cons]
    constructor
    · exact fun h => ⟨h.1, ih.mp (h.2 t ht)⟩
    · exact fun h => ⟨h.1, fun _ _ => ih.mpr h.2⟩

theorem Along.last {P : σ → α → Prop} {as : List α} {a : α} :
    ∀ {s t : σ}, Along step P s (as ++ [a]) → run step s as = some t → P t a := by
  induction as with
  | nil =>
    intro s t h hrun
    obtain rfl := Option.some.inj hrun
    exact h.1
  | cons b as ih =>
    intro s t h hrun
    obtain ⟨u, hu, hrun⟩ := run_cons.mp hrun
    exact ih (h.2 u hu) hrun

/-- What every step of a run meets may be read off the states reached, which have an
invariant in common. -/
theorem along_congr {P Q : σ → α → Prop} {Inv : σ → Prop}
    (hstep : ∀ {s a s'}, Inv s → P s a → step s a = some s' → Inv s')
    (hPQ : ∀ {s a}, Inv s → (P s a ↔ Q s a)) {as : List α} :
    ∀ {s : σ}, Inv s → (Along step P s as ↔ Along step Q s as) := by
  induction as with
  | nil => exact fun _ => Iff.rfl
  | cons a as ih =>
    intro s hs
    constructor
    · exact fun h => ⟨(hPQ hs).mp h.1, fun s' hs' => (ih (hstep hs h.1 hs')).mp (h.2 s' hs')⟩
    · intro h
      have ha := (hPQ hs).mpr h.1
      exact ⟨ha, fun s' hs' => (ih (hstep hs ha hs')).mpr (h.2 s' hs')⟩

theorem along_and {P Q : σ → α → Prop} {as : List α} :
    ∀ {s : σ}, Along step (fun s a => P s a ∧ Q s a) s as ↔ Along step P s as ∧ Along step Q s as := by
  induction as with
  | nil => exact iff_of_true trivial ⟨trivial, trivial⟩
  | cons a as ih =>
    intro s
    constructor
    · exact fun h => ⟨⟨h.1.1, fun s' hs' => (ih.mp (h.2 s' hs')).1⟩,
        ⟨h.1.2, fun s' hs' => (ih.mp (h.2 s' hs')).2⟩⟩
    · exact fun h => ⟨⟨h.1.1, h.2.1⟩, fun s' hs' => ih.mpr ⟨h.1.2 s' hs', h.2.2 s' hs'⟩⟩

/-- `along_congr` in runs all of whose steps meet `V`. -/
theorem along_congr_of {P Q V : σ → α → Prop} {Inv : σ → Prop}
    (hstep : ∀ {s a s'}, Inv s → V s a → P s a → step s a = some s' → Inv s')
    (hPQ : ∀ {s a}, Inv s → V s a → (P s a ↔ Q s a)) {as : List α} {s : σ} (hs : Inv s)
    (hV : Along step V s as) : Along step P s as ↔ Along step Q s as := by
  have hcongr : Along step (fun s a => V s a ∧ P s a) s as ↔
      Along step (fun s a => V s a ∧ Q s a) s as :=
    along_congr (fun hs h hstep' => hstep hs h.1 h.2 hstep')
      (fun hs => and_congr_right fun h => hPQ hs h) hs
  rw [along_and, along_and] at hcongr
  exact ⟨fun h => (hcongr.mp ⟨hV, h⟩).2, fun h => (hcongr.mpr ⟨hV, h⟩).2⟩

theorem steps_invariant {r : σ → σ → Prop} {Inv : σ → Prop}
    (hstep : ∀ {s s'}, Inv s → r s s' → Inv s') {s s' : σ} (hs : Inv s)
    (h : Relation.ReflTransGen r s s') : Inv s' := by
  induction h with
  | refl => exact hs
  | tail _ hr ih => exact hstep ih hr

/-! ### Loops -/

section Loop
variable (next : σ → Option σ)

/-- Every state the loop gets to meets `P`. -/
def Always (P : σ → Prop) (s : σ) : Prop :=
  ∀ t, Relation.ReflTransGen (fun s t => next s = some t) s t → P t

/-- The loop comes to its end. -/
def Halts (s : σ) : Prop := Acc (fun t s => next s = some t) s

variable {next} {P : σ → Prop} {s : σ}

theorem always_iff : Always next P s ↔ P s ∧ ∀ t, next s = some t → Always next P t := by
  constructor
  · exact fun h => ⟨h s .refl, fun t hnext u hu => h u (.head hnext hu)⟩
  · intro h t ht
    rcases Relation.ReflTransGen.cases_head ht with rfl | ⟨u, hnext, hu⟩
    · exact h.1
    · exact h.2 u hnext t hu

theorem Always.imp {Q : σ → Prop} (h : Always next P s) (himp : ∀ t, P t → Q t) :
    Always next Q s :=
  fun t ht => himp t (h t ht)

theorem always_of_step (hstep : ∀ {s t}, P s → next s = some t → P t) (hs : P s) :
    Always next P s :=
  fun _ ht => @steps_invariant _ (fun s t => next s = some t) P
    (fun hs hnext => hstep hs hnext) _ _ hs ht

theorem halts_of_decreasing {measure : σ → Nat}
    (h : Always next (fun s => ∀ t, next s = some t → measure t < measure s) s) :
    Halts next s := by
  induction hm : measure s using Nat.strongRecOn generalizing s with
  | ind n ih =>
    obtain ⟨hhead, htail⟩ := always_iff.mp h
    exact ⟨s, fun t hnext => ih (measure t) (hm ▸ hhead t hnext) (htail t hnext) rfl⟩

theorem not_halts_of_fixed (h : next s = some s) : ¬ Halts next s := by
  intro hacc
  induction hacc with
  | intro t _ ih => exact ih t h h

end Loop

/-! ### One thread among others -/

section Thread
variable (step) (mine : α → Prop)

/-- A step of the thread whose steps are `mine`, behind any steps of the others. -/
def Turn (s t : σ) : Prop :=
  ∃ others a u, (∀ b ∈ others, ¬ mine b) ∧ run step s others = some u ∧ mine a ∧ step u a = some t

/-- The thread takes finitely many more steps, whatever the others do. -/
def Finishes (s : σ) : Prop := Acc (fun t s => Turn step mine s t) s

variable {step mine} {P : σ → Prop} {s : σ}

theorem run_measure {measure : σ → Nat} (hstep : ∀ {s a s'}, P s → step s a = some s' → P s')
    (hothers : ∀ {s a s'}, P s → ¬ mine a → step s a = some s' → measure s' ≤ measure s)
    {as : List α} : ∀ {s t : σ}, P s → (∀ a ∈ as, ¬ mine a) → run step s as = some t →
      P t ∧ measure t ≤ measure s := by
  induction as with
  | nil =>
    intro s t hs _ h
    obtain rfl := Option.some.inj h
    exact ⟨hs, Nat.le_refl _⟩
  | cons a as ih =>
    intro s t hs hnot h
    obtain ⟨u, hu, h⟩ := run_cons.mp h
    obtain ⟨ht, hle⟩ := ih (hstep hs hu) (fun b hb => hnot b (List.mem_cons_of_mem _ hb)) h
    exact ⟨ht, Nat.le_trans hle (hothers hs (hnot a List.mem_cons_self) hu)⟩

theorem finishes_of_decreasing {measure : σ → Nat}
    (hstep : ∀ {s a s'}, P s → step s a = some s' → P s')
    (hmine : ∀ {s a s'}, P s → mine a → step s a = some s' → measure s' < measure s)
    (hothers : ∀ {s a s'}, P s → ¬ mine a → step s a = some s' → measure s' ≤ measure s)
    (hs : P s) : Finishes step mine s := by
  induction hm : measure s using Nat.strongRecOn generalizing s with
  | ind n ih =>
    constructor
    rintro t ⟨others, a, u, hnot, hrun, ha, hstep'⟩
    obtain ⟨hu, hle⟩ := run_measure hstep hothers hs hnot hrun
    exact ih (measure t) (hm ▸ Nat.lt_of_lt_of_le (hmine hu ha hstep') hle) (hstep hu hstep') rfl

/-- A thread that can always go on does not finish. -/
theorem not_finishes_of_progress
    (hstep : ∀ {s}, P s → ∃ a t, mine a ∧ step s a = some t ∧ P t) (hs : P s) :
    ¬ Finishes step mine s := by
  intro hacc
  induction hacc with
  | intro s _ ih =>
    obtain ⟨a, t, ha, ht, hP⟩ := hstep hs
    exact ih t ⟨[], a, s, List.forall_mem_nil _, rfl, ha, ht⟩ hP

end Thread

end Runs
