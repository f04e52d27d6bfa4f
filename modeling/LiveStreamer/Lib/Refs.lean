import Mathlib.Logic.Function.Basic
import Mathlib.Tactic.Common

/-! # References to objects

A variable for an object holds no reference (NULL), a reference that is held, or one that has been
released. `make` stores a new reference, `use` applies an operation to the object, `drop`
gives the reference back. Each use and drop leaves a `Touch` with the reference it met, and the
references are `Clean` if no touch met a released one: then nothing is used after its release, and
nothing is released twice. A touch of a variable without a reference does nothing. -/

namespace LiveStreamer.Lib.Refs

inductive Ref where
  | null
  | held
  | released
  deriving DecidableEq

theorem Ref.cases (r : Ref) : r = .null ∨ r = .held ∨ r = .released := by
  cases r <;> simp

/-- A use or a release of an object, and the reference it met. -/
structure Touch (ι : Type) where
  obj : ι
  met : Ref
  release : Bool

structure Handles (ι : Type) where
  ref : ι → Ref
  /-- Newest first. -/
  touches : List (Touch ι)

namespace Handles

variable {ι : Type} (r : Handles ι) (o o' : ι)

/-- No reference to any object. -/
def empty : Handles ι := ⟨fun _ => .null, []⟩

/-- Store a new reference, or NULL if the object could not be made. -/
def make [DecidableEq ι] (made : Bool) : Handles ι :=
  { r with ref := Function.update r.ref o (if made then .held else .null) }

def use : Handles ι := { r with touches := ⟨o, r.ref o, false⟩ :: r.touches }

def drop [DecidableEq ι] : Handles ι where
  ref := if r.ref o = .held then Function.update r.ref o .released else r.ref
  touches := ⟨o, r.ref o, true⟩ :: r.touches

/-- **No operation met a released reference.** -/
def Clean : Prop := ∀ t ∈ r.touches, t.met ≠ .released

instance : Decidable r.Clean := inferInstanceAs (Decidable (∀ t ∈ r.touches, t.met ≠ .released))

/-! ### What the operations leave -/

@[simp] theorem ref_use : (r.use o).ref = r.ref := rfl

theorem ref_make [DecidableEq ι] (made : Bool) : (r.make o made).ref o' =
    if o' = o then (if made then .held else .null) else r.ref o' := by
  unfold make
  simp only [Function.update_apply]

theorem ref_drop [DecidableEq ι] : (r.drop o).ref o' =
    if o' = o ∧ r.ref o = .held then .released else r.ref o' := by
  unfold drop
  by_cases hh : r.ref o = .held
  · simp only [hh, if_true, and_true, Function.update_apply]
  · simp only [hh, if_false, and_false]

@[simp] theorem clean_empty : (empty : Handles ι).Clean := by
  intro t ht
  simp [empty] at ht

@[simp] theorem clean_make [DecidableEq ι] (made : Bool) : (r.make o made).Clean ↔ r.Clean := Iff.rfl

@[simp] theorem clean_use : (r.use o).Clean ↔ r.ref o ≠ .released ∧ r.Clean := by
  simp [Clean, use]

@[simp] theorem clean_drop [DecidableEq ι] : (r.drop o).Clean ↔ r.ref o ≠ .released ∧ r.Clean := by
  simp [Clean, drop]

end Handles

end LiveStreamer.Lib.Refs
