/-! Programs that may touch memory they must not: the outcomes, and the rules of what
they ensure. -/

set_option autoImplicit false

/-- What comes of a function that reads from a block or writes to one. -/
inductive Access (α : Type) where
  /-- a byte outside the block is touched -/
  | outside
  /-- the function gives up -/
  | failed
  | ok (a : α)
deriving DecidableEq

namespace Access
variable {α β : Type} {x : Access α} {f : α → Access β} {P : α → Prop} {Q : β → Prop}

def bind (x : Access α) (f : α → Access β) : Access β :=
  match x with
  | outside => outside
  | failed => failed
  | ok a => f a

instance : Monad Access where
  pure := ok
  bind := bind

@[simp] theorem ok_bind (a : α) (f : α → Access β) : (ok a >>= f) = f a := rfl

@[simp] theorem failed_bind (f : α → Access β) : (failed >>= f) = failed := rfl

@[simp] theorem outside_bind (f : α → Access β) : (outside >>= f) = outside := rfl

theorem bind_eq_ok {b : β} (h : (x >>= f) = ok b) : ∃ a, x = ok a ∧ f a = ok b := by
  cases x with
  | outside => cases h
  | failed => cases h
  | ok a => exact ⟨a, rfl, h⟩

/-- Nothing outside is touched, and what is returned satisfies the condition. -/
def Ensures (x : Access α) (P : α → Prop) : Prop :=
  match x with
  | outside => False
  | failed => True
  | ok a => P a

@[simp] theorem ensures_ok {a : α} : (ok a).Ensures P ↔ P a := Iff.rfl

@[simp] theorem ensures_failed : (failed : Access α).Ensures P := trivial

theorem Ensures.bind (hx : x.Ensures P) (hf : ∀ a, P a → (f a).Ensures Q) : (x >>= f).Ensures Q := by
  cases x with
  | outside => exact hx
  | failed => trivial
  | ok a => exact hf a hx

theorem Ensures.imp {P' : α → Prop} (hx : x.Ensures P) (h : ∀ a, P a → P' a) : x.Ensures P' := by
  cases x with
  | outside => exact hx
  | failed => trivial
  | ok a => exact h a hx

theorem Ensures.ne_outside (hx : x.Ensures P) : x ≠ outside := by
  rintro rfl
  exact hx

theorem Ensures.of_ok {a : α} (hx : x.Ensures P) (h : x = ok a) : P a := by
  subst h
  exact hx

/-- Nothing outside is touched, what is returned satisfies the condition, and under the
hypothesis the function does return. -/
def Returns (x : Access α) (h : Prop) (P : α → Prop) : Prop :=
  match x with
  | outside => False
  | failed => ¬ h
  | ok a => P a

variable {h : Prop}

@[simp] theorem returns_ok {a : α} : (ok a).Returns h P ↔ P a := Iff.rfl

@[simp] theorem returns_failed : (failed : Access α).Returns h P ↔ ¬ h := Iff.rfl

theorem Returns.bind (hx : x.Returns h P) (hf : ∀ a, P a → (f a).Returns h Q) : (x >>= f).Returns h Q := by
  cases x with
  | outside => exact hx
  | failed => exact hx
  | ok a => exact hf a hx

theorem Returns.imp {P' : α → Prop} (hx : x.Returns h P) (himp : ∀ a, P a → P' a) : x.Returns h P' := by
  cases x with
  | outside => exact hx
  | failed => exact hx
  | ok a => exact himp a hx

theorem Returns.ensures (hx : x.Returns h P) : x.Ensures P := by
  cases x with
  | outside => exact hx
  | failed => trivial
  | ok a => exact hx

theorem Returns.exists_ok (hx : x.Returns h P) (hh : h) : ∃ a, x = ok a ∧ P a := by
  cases x with
  | outside => exact absurd hx id
  | failed => exact absurd hh hx
  | ok a => exact ⟨a, rfl, hx⟩

end Access
