import Mathlib

/-!
# XLArig.Sweep

Loops that walk over an array in equal strides, and passes that read each block of it before
they overwrite it.

`sweep` is the loop, `sweep_rule` its invariant rule.  A `Pass` reads blocks into an
accumulator and writes the blocks that a generator makes; as long as no block is read after it
was written (`Pass.At.read`, `Pass.At.write`), it ends with what reading everything first and
writing everything afterwards leaves, in whatever order the two take turns.
-/

namespace XLArig

/-! ## Strides -/

section Stride

variable {α : Type*} {d stop p : Nat} [NeZero d] {body : Nat → α → α} {a : α}

/-- While `p` is below `stop`, run `body` and go on by `d`. -/
def sweep (d : Nat) [NeZero d] (body : Nat → α → α) (stop p : Nat) (a : α) : Nat × α :=
  if p < stop then sweep d body stop (p + d) (body p a) else (p, a)
termination_by stop - p
decreasing_by
  have := NeZero.pos d
  omega

/-- The loop ends at `stop` if the strides lead there, with what each stride keeps. -/
theorem sweep_rule {P : Nat → α → Prop} (hdvd : d ∣ stop - p) (hle : p ≤ stop) (h : P p a)
    (hbody : ∀ p a, d ∣ stop - p → p + d ≤ stop → P p a → P (p + d) (body p a)) :
    (sweep d body stop p a).1 = stop ∧ P stop (sweep d body stop p a).2 := by
  fun_induction sweep d body stop p a with
  | case1 p a hlt ih =>
      have hstride : p + d ≤ stop := by
        have := Nat.le_of_dvd (by omega) hdvd
        omega
      refine ih ?_ hstride (hbody p a hdvd hstride h)
      rw [Nat.sub_add_eq]
      exact Nat.dvd_sub hdvd (dvd_refl d)
  | case2 p a hge =>
      obtain rfl : p = stop := by omega
      exact ⟨rfl, h⟩

end Stride

/-! ## Passes -/

section Pass

variable {β σ τ : Type*} (f : σ → β → σ) (g : τ → τ) (out : τ → β)

/-- The accumulator after the first `n` blocks. -/
def absorb (m : Nat → β) (s : σ) : Nat → σ
  | 0 => s
  | n + 1 => f (absorb m s n) (m n)

/-- The first `n` blocks are those of the generator, which steps before each. -/
def overwrite (m : Nat → β) (t : τ) (n : Nat) : Nat → β :=
  fun i => if i < n then out (g^[i + 1] t) else m i

/-- An array, an accumulator and a generator. -/
structure Pass (β σ τ : Type*) where
  mem : Nat → β
  acc : σ
  gen : τ

namespace Pass

/-- Block `i` is read. -/
def read (i : Nat) (x : Pass β σ τ) : Pass β σ τ := { x with acc := f x.acc (x.mem i) }

/-- Block `i` is written. -/
def write (i : Nat) (x : Pass β σ τ) : Pass β σ τ :=
  { x with
    mem := Function.update x.mem i (out (g x.gen))
    gen := g x.gen }

/-- From `x₀`, the first `i` blocks were read and the first `j` were written. -/
structure At (x₀ : Pass β σ τ) (i j : Nat) (x : Pass β σ τ) : Prop where
  mem : x.mem = overwrite g out x₀.mem x₀.gen j
  acc : x.acc = absorb f x₀.mem x₀.acc i
  gen : x.gen = g^[j] x₀.gen

variable {f g out} {x₀ x : Pass β σ τ} {i j : Nat}

theorem At.start : At f g out x₀ 0 0 x₀ where
  mem := by
    funext i
    simp [overwrite]
  acc := rfl
  gen := rfl

/-- The next block is read before it is written. -/
theorem At.read (h : At f g out x₀ i j x) (hle : j ≤ i) : At f g out x₀ (i + 1) j (x.read f i) where
  mem := h.mem
  acc := by simp [Pass.read, absorb, h.acc, h.mem, overwrite, Nat.not_lt.mpr hle]
  gen := h.gen

theorem At.write (h : At f g out x₀ i j x) : At f g out x₀ i (j + 1) (x.write g out j) where
  mem := by
    funext k
    by_cases hk : k = j
    · subst hk
      simp [Pass.write, overwrite, h.gen, Function.iterate_succ_apply']
    · have hlt : k < j + 1 ↔ k < j := by omega
      simp [Pass.write, overwrite, h.mem, Function.update_of_ne hk, hlt]
  acc := h.acc
  gen := by simp [Pass.write, h.gen, Function.iterate_succ_apply']

end Pass

variable {f g out} {m m' : Nat → β} {s : σ} {t : τ} {n : Nat}

/-- Only the blocks that are read matter. -/
theorem absorb_congr (h : ∀ i < n, m i = m' i) : absorb f m s n = absorb f m' s n := by
  induction n with
  | zero => rfl
  | succ n ih =>
      have hfirst : absorb f m s n = absorb f m' s n := ih fun i hi => h i (by omega)
      rw [absorb, absorb, hfirst, h n (by omega)]

theorem overwrite_apply {i : Nat} (h : i < n) : overwrite g out m t n i = out (g^[i + 1] t) :=
  if_pos h

end Pass

end XLArig
