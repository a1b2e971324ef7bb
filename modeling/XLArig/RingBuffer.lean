import Mathlib

/-!
# XLArig.RingBuffer

Ring buffers of `n` slots, which are written one after the other and over again.

A ring is read backwards from the slot written last, and the history of the writes, the newest
first, says what is found there (`Holds`).
-/

/-- The slots, and the one that is written next. -/
structure RingBuffer (α : Type*) where
  slots : Nat → α
  top : Nat

namespace RingBuffer

variable {α : Type*} {n top i j : Nat} {r : RingBuffer α} {l : List α} {x fill : α}

/-- Write the next slot. -/
def push (n : Nat) (r : RingBuffer α) (x : α) : RingBuffer α :=
  ⟨Function.update r.slots r.top x, (r.top + 1) % n⟩

/-- The slot written `j` writes before the last one. -/
def index (n top j : Nat) : Nat := (top + (n - 1 - j)) % n

theorem index_lt (h : 0 < n) : index n top j < n := Nat.mod_lt _ h

/-- One slot further back. -/
theorem index_succ (h : j + 1 < n) :
    index n top (j + 1) = (index n top j + (n - 1)) % n := by
  have hsum : top + (n - 1 - j) + (n - 1) = top + (n - 1 - (j + 1)) + n := by omega
  rw [index, index, Nat.mod_add_mod, hsum, Nat.add_mod_right]

/-- The last step back leads around to the first slot. -/
theorem index_wrap (h : 0 < n) : (index n top (n - 1) + (n - 1)) % n = index n top 0 := by
  have hself : n - 1 - (n - 1) = 0 := by omega
  rw [index, index, Nat.mod_add_mod, hself, Nat.add_zero, Nat.sub_zero]

/-- One slot forth again. -/
theorem index_pred (h : j + 1 < n) : (index n top (j + 1) + 1) % n = index n top j := by
  have hsum : top + (n - 1 - (j + 1)) + 1 = top + (n - 1 - j) := by omega
  rw [index, index, Nat.mod_add_mod, hsum]

/-- The slots are met once on the way back. -/
theorem index_inj (hi : i < n) (hj : j < n) (h : index n top i = index n top j) : i = j := by
  have hmod : n - 1 - i ≡ n - 1 - j [MOD n] := Nat.ModEq.add_left_cancel' top h
  have heq := hmod.eq_of_lt_of_lt (by omega) (by omega)
  omega

/-- The slots hold what was written last, the newest first in `l`, and `fill` where nothing was
written yet. -/
structure Holds (n : Nat) (fill : α) (r : RingBuffer α) (l : List α) : Prop where
  top_lt : r.top < n
  slot : ∀ j < n, r.slots (index n r.top j) = l.getD j fill

/-- Slots that all hold `fill`. -/
theorem holds_nil (h : 0 < n) : Holds n fill ⟨fun _ => fill, 0⟩ [] :=
  ⟨h, fun _ _ => rfl⟩

theorem Holds.push (h : Holds n fill r l) (x : α) : Holds n fill (r.push n x) (x :: l) := by
  have htop := h.top_lt
  refine ⟨Nat.mod_lt _ (by omega), fun j hj => ?_⟩
  -- the slot of the write before is the one that was written now, or one further back
  have hback : index n ((r.top + 1) % n) j = (r.top + (n - j)) % n := by
    have hsum : r.top + 1 + (n - 1 - j) = r.top + (n - j) := by omega
    rw [index, Nat.mod_add_mod, hsum]
  simp only [RingBuffer.push, hback]
  cases j with
  | zero =>
      have hself : (r.top + (n - 0)) % n = r.top := by
        rw [Nat.sub_zero, Nat.add_mod_right, Nat.mod_eq_of_lt htop]
      rw [hself, Function.update_self, List.getD_cons_zero]
  | succ j =>
      have hindex : (r.top + (n - (j + 1))) % n = index n r.top j := by
        have hsum : n - (j + 1) = n - 1 - j := by omega
        rw [index, hsum]
      have hne : index n r.top j ≠ r.top := by
        have hself : index n r.top (n - 1) = r.top := by
          rw [index, Nat.sub_self, Nat.add_zero, Nat.mod_eq_of_lt htop]
        intro heq
        have := index_inj (by omega) (by omega) (heq.trans hself.symm)
        omega
      rw [hindex, Function.update_of_ne hne, List.getD_cons_succ]
      exact h.slot j (by omega)

end RingBuffer
