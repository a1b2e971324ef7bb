import Mathlib

/-!
# XLArig.Sure

Computations that stop at a fault, and what they yield when they meet none.

A fault is what a program does not check, or does not expect: an index outside an array, a number
below zero, a loop that goes on.  A computation is an `Except`, and `x.Sure P` says that `x` meets
no fault and that `P` holds of what it yields.
-/

universe u

namespace Except

variable {ε : Type*} {α β : Type u} {P Q : α → Prop} {R : β → Prop} {x : Except ε α} {a : α}

/-- The computation meets no fault, and yields what has `P`. -/
def Sure (P : α → Prop) : Except ε α → Prop
  | .ok a => P a
  | .error _ => False

@[simp] theorem sure_ok : (.ok a : Except ε α).Sure P ↔ P a := Iff.rfl

@[simp] theorem sure_pure : (pure a : Except ε α).Sure P ↔ P a := Iff.rfl

theorem sure_iff : x.Sure P ↔ ∃ a, x = .ok a ∧ P a := by
  cases x with
  | error e => simp [Sure]
  | ok a => simp

theorem Sure.mono (hx : x.Sure P) (h : ∀ a, P a → Q a) : x.Sure Q := by
  obtain ⟨a, rfl, ha⟩ := sure_iff.mp hx
  exact h a ha

theorem sure_self (hx : x.Sure P) : x.Sure fun a => x = .ok a ∧ P a := by
  obtain ⟨a, rfl, ha⟩ := sure_iff.mp hx
  exact ⟨rfl, ha⟩

/-- The rule for one computation after another. -/
theorem Sure.bind {f : α → Except ε β} (hx : x.Sure P) (hf : ∀ a, P a → (f a).Sure R) :
    (x >>= f).Sure R := by
  obtain ⟨a, rfl, ha⟩ := sure_iff.mp hx
  exact hf a ha

/-- The rule for a test. -/
theorem sure_ite {c : Prop} [Decidable c] {y : Except ε α} (hx : c → x.Sure P)
    (hy : ¬ c → y.Sure P) : (if c then x else y).Sure P := by
  split
  · next hc => exact hx hc
  · next hc => exact hy hc

end Except

namespace Vector

variable {ε α : Type*} {n i j : Nat} {e : ε} {v : Vector α n} {x : α}

/-- An entry of an array. -/
def fetch (e : ε) (v : Vector α n) (i : Nat) : Except ε α :=
  if h : i < n then .ok v[i] else .error e

/-- An array with another entry. -/
def store (e : ε) (v : Vector α n) (i : Nat) (x : α) : Except ε (Vector α n) :=
  if h : i < n then .ok (v.set i x h) else .error e

theorem sure_fetch (h : i < n) : (v.fetch e i).Sure fun x => x = v[i] := by
  rw [fetch, dif_pos h]
  rfl

theorem sure_store (h : i < n) : (v.store e i x).Sure fun w => w = v.set i x h := by
  rw [store, dif_pos h]
  rfl

theorem fetch_set_ne (h : i < n) (hne : i ≠ j) : (v.set i x h).fetch e j = v.fetch e j := by
  simp only [fetch, Vector.getElem_set, if_neg hne]

end Vector
