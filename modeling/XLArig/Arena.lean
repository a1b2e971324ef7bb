import Mathlib

/-!
# XLArig.Arena

Ranges that are cut off one after another from a block of memory, and given back in any order.

The next range begins at `top`; `top` moves up with every range and goes back to `base` once no
range is lent any more, and only then.  `Arena.Lends base top l` is what this keeps of the ranges
`l` that are lent.
-/

namespace Arena

/-- Two ranges, each by its start and length, that do not meet. -/
def Beside (r s : Nat × Nat) : Prop := r.1 + r.2 ≤ s.1 ∨ s.1 + s.2 ≤ r.1

structure Lends (base top : Nat) (l : List (Nat × Nat)) : Prop where
  apart : l.Pairwise Beside
  within : ∀ r ∈ l, base ≤ r.1 ∧ r.1 + r.2 ≤ top
  le : base ≤ top
  rewound : l = [] → top = base

variable {base top n : Nat} {l l' : List (Nat × Nat)} {r s : Nat × Nat}

theorem Beside.symm (h : Beside r s) : Beside s r := Or.symm h

theorem lends_nil (base : Nat) : Lends base base [] :=
  ⟨.nil, fun _ h => absurd h List.not_mem_nil, le_rfl, fun _ => rfl⟩

theorem Lends.perm (h : Lends base top l) (hl : l.Perm l') : Lends base top l' where
  apart := h.apart.perm hl Beside.symm
  within r hr := h.within r (hl.mem_iff.mpr hr)
  le := h.le
  rewound hnil := h.rewound (by rw [hnil] at hl; exact hl.eq_nil)

/-- One more range. -/
theorem Lends.take (h : Lends base top l) (n : Nat) : Lends base (top + n) ((top, n) :: l) where
  apart := List.pairwise_cons.mpr ⟨fun r hr => .inr (h.within r hr).2, h.apart⟩
  within := by
    refine List.forall_mem_cons.mpr ⟨⟨h.le, le_rfl⟩, fun r hr => ?_⟩
    have hr' := h.within r hr
    exact ⟨hr'.1, by omega⟩
  le := h.le.trans (Nat.le_add_right _ _)
  rewound hnil := absurd hnil (List.cons_ne_nil _ _)

/-- A range that is given back, when others are still lent. -/
theorem Lends.give (h : Lends base top (r :: l)) (hl : l ≠ []) : Lends base top l where
  apart := (List.pairwise_cons.mp h.apart).2
  within s hs := h.within s (List.mem_cons_of_mem r hs)
  le := h.le
  rewound hnil := absurd hnil hl

end Arena
