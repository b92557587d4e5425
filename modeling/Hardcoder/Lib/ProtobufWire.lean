import Mathlib.Data.List.Basic
import Mathlib.Tactic.Cases

/-! The protobuf wire format, for the two wire types a message of integers, strings
and nested messages needs: base-128 varints and length-delimited bytes. A message is
a list of numbered fields; what a field means is up to the message. -/

namespace ProtobufWire
set_option autoImplicit false

def varintFrom : Nat → Nat → List UInt8
  | 0, n => [UInt8.ofNat n]
  | fuel + 1, n =>
    if n < 128 then [UInt8.ofNat n] else UInt8.ofNat (n % 128 + 128) :: varintFrom fuel (n / 128)

/-- Seven bits a byte, lowest first; every byte but the last has its high bit set. -/
def varint (n : Nat) : List UInt8 := varintFrom n n

def readVarint : List UInt8 → Option (Nat × List UInt8)
  | [] => none
  | b :: bs =>
    if b.toNat < 128 then some (b.toNat, bs)
    else (readVarint bs).map fun (n, rest) => (b.toNat - 128 + 128 * n, rest)

theorem readVarint_one {n : Nat} (h : n < 128) (rest : List UInt8) :
    readVarint (UInt8.ofNat n :: rest) = some (n, rest) := by
  have hb : (UInt8.ofNat n).toNat = n := by
    rw [UInt8.toNat_ofNat']
    omega
  rw [readVarint, hb, if_pos h]

theorem readVarint_varintFrom (rest : List UInt8) {fuel : Nat} :
    ∀ {n : Nat}, n ≤ fuel → readVarint (varintFrom fuel n ++ rest) = some (n, rest) := by
  induction fuel with
  | zero =>
    intro n hn
    exact readVarint_one (by omega) rest
  | succ fuel ih =>
    intro n hn
    rw [varintFrom]
    split
    · rename_i h
      exact readVarint_one h rest
    · have hb : (UInt8.ofNat (n % 128 + 128)).toNat = n % 128 + 128 := by
        rw [UInt8.toNat_ofNat']
        omega
      have hdigits : n % 128 + 128 - 128 + 128 * (n / 128) = n := by omega
      rw [List.cons_append, readVarint, hb, if_neg (by omega), ih (by omega)]
      simp only [Option.map_some, hdigits]

theorem readVarint_varint (n : Nat) (rest : List UInt8) :
    readVarint (varint n ++ rest) = some (n, rest) :=
  readVarint_varintFrom rest (Nat.le_refl n)

theorem varint_ne_nil (n : Nat) : varint n ≠ [] := by
  intro h
  have hread := readVarint_varint n []
  rw [h] at hread
  cases hread

inductive Value where
  | varint (n : Nat)
  | bytes (bs : List UInt8)
deriving DecidableEq, Repr

namespace Value

def varint? : Value → Option Nat
  | varint n => some n
  | bytes _ => none

def bytes? : Value → Option (List UInt8)
  | varint _ => none
  | bytes bs => some bs

end Value

structure Field where
  number : Nat
  value : Value
deriving DecidableEq, Repr

/-- Tag, then the value; a length-delimited value comes behind its length. -/
def writeField (f : Field) : List UInt8 :=
  match f.value with
  | .varint n => varint (8 * f.number) ++ varint n
  | .bytes bs => varint (8 * f.number + 2) ++ (varint bs.length ++ bs)

def readField (bs : List UInt8) : Option (Field × List UInt8) :=
  (readVarint bs).bind fun (tag, bs) =>
    (readVarint bs).bind fun (n, bs) =>
      if tag % 8 = 0 then some (⟨tag / 8, .varint n⟩, bs)
      else if tag % 8 = 2 ∧ n ≤ bs.length then some (⟨tag / 8, .bytes (bs.take n)⟩, bs.drop n)
      else none

theorem readField_writeField (f : Field) (rest : List UInt8) :
    readField (writeField f ++ rest) = some (f, rest) := by
  obtain ⟨number, value⟩ := f
  cases value with
  | varint n =>
    have hnumber : 8 * number / 8 = number := by omega
    simp [writeField, readField, readVarint_varint, hnumber]
  | bytes bs =>
    have htype : (8 * number + 2) % 8 = 2 := by omega
    have hnumber : (8 * number + 2) / 8 = number := by omega
    simp [writeField, readField, readVarint_varint, htype, hnumber]

theorem writeField_ne_nil (f : Field) : writeField f ≠ [] := by
  unfold writeField
  split <;> simp [varint_ne_nil]

def serialize (fs : List Field) : List UInt8 := fs.flatMap writeField

/-- The fields up to the first one that cannot be read, and whether all could.
Every field takes a byte, so the length of the input is fuel enough. -/
def readFields : Nat → List UInt8 → Bool × List Field
  | _, [] => (true, [])
  | 0, _ :: _ => (false, [])
  | fuel + 1, b :: bs =>
    match readField (b :: bs) with
    | none => (false, [])
    | some (f, rest) =>
      let more := readFields fuel rest
      (more.1, f :: more.2)

def parse (bs : List UInt8) : Bool × List Field := readFields bs.length bs

theorem readFields_serialize (fs : List Field) :
    ∀ {fuel : Nat}, (serialize fs).length ≤ fuel → readFields fuel (serialize fs) = (true, fs) := by
  induction fs with
  | nil =>
    intro fuel _
    cases fuel <;> rfl
  | cons f fs ih =>
    intro fuel hfuel
    have hpos := List.length_pos_iff.mpr (writeField_ne_nil f)
    have hread := readField_writeField f (serialize fs)
    obtain ⟨b, bs, hbs⟩ := List.exists_cons_of_ne_nil (writeField_ne_nil f)
    have hserial : serialize (f :: fs) = b :: (bs ++ serialize fs) := by
      rw [serialize, List.flatMap_cons, hbs]
      rfl
    rw [hbs, List.cons_append] at hread
    simp only [serialize, List.flatMap_cons, List.length_append] at hfuel
    cases fuel with
    | zero => omega
    | succ fuel =>
      have hrest : readFields fuel (serialize fs) = (true, fs) := ih (by rw [serialize]; omega)
      rw [hserial, readFields, hread]
      simp only [hrest]

@[simp] theorem parse_serialize (fs : List Field) : parse (serialize fs) = (true, fs) :=
  readFields_serialize fs (Nat.le_refl _)

section Lookup
universe u
variable {α : Type u} (number : Nat) (as : Value → Option α)

/-- The values of a repeated field, in order. A value of another wire type is not
one of them. -/
def all (fs : List Field) : List α :=
  fs.filterMap fun f => if f.number = number then as f.value else none

/-- The value of a singular field: the last one wins. -/
def last (fs : List Field) : Option α := (all number as fs).getLast?

@[simp] theorem all_nil : all number as [] = [] := rfl

@[simp] theorem all_cons (f : Field) (fs : List Field) :
    all number as (f :: fs) =
      ((if f.number = number then as f.value else none).toList ++ all number as fs) := by
  rw [all, List.filterMap_cons]
  cases (if f.number = number then as f.value else none) <;> rfl

@[simp] theorem all_append (fs gs : List Field) :
    all number as (fs ++ gs) = all number as fs ++ all number as gs := by
  simp [all]

theorem all_map_eq {β : Type u} {g : β → Value} {h : β → α} (hg : ∀ x, as (g x) = some (h x))
    (xs : List β) : all number as (xs.map fun x => ⟨number, g x⟩) = xs.map h := by
  induction xs with
  | nil => rfl
  | cons x xs ih => simp [ih, hg]

theorem all_map_ne {β : Type u} {g : β → Value} {m : Nat} (hm : m ≠ number) (xs : List β) :
    all number as (xs.map fun x => ⟨m, g x⟩) = [] := by
  induction xs with
  | nil => rfl
  | cons x xs ih => simp [ih, hm]

end Lookup

end ProtobufWire
