import Mathlib

/-!
# XLArig.Tracks

Programs with a state, and computations without one that tell what they return.

A program `x` tracks a computation `y` if `y` fails where `x` fails and with the same fault, and
`x` returns what is related to the result of `y` otherwise.  The states are those of an invariant,
which the program keeps.
-/

universe u

variable {σ ε : Type u} {α β γ δ : Type u} {Inv : σ → Prop} {R : α → β → Prop} {Q : γ → δ → Prop}
variable {x : StateT σ (Except ε) α} {y : Except ε β}

/-- What `x` does in a state, next to `y`. -/
def StateT.Tracks (Inv : σ → Prop) (R : α → β → Prop) (x : StateT σ (Except ε) α)
    (y : Except ε β) : Prop :=
  ∀ s, Inv s →
    match y with
    | .ok b => ∃ a s', x s = .ok (a, s') ∧ R a b ∧ Inv s'
    | .error e => x s = .error e

namespace StateT

theorem tracks_pure {a : α} {b : β} (h : R a b) :
    Tracks Inv R (pure a : StateT σ (Except ε) α) (.ok b) :=
  fun s hs => ⟨a, s, rfl, h, hs⟩

/-- One program after another. -/
theorem bind_eq (x : StateT σ (Except ε) α) (f : α → StateT σ (Except ε) γ) (s : σ) :
    (x >>= f) s = (x s).bind fun p => f p.1 p.2 := rfl

theorem Tracks.bind {f : α → StateT σ (Except ε) γ} {g : β → Except ε δ} (hx : Tracks Inv R x y)
    (hf : ∀ a b, R a b → Tracks Inv Q (f a) (g b)) : Tracks Inv Q (x >>= f) (y >>= g) := by
  intro s hs
  have hxs := hx s hs
  rw [bind_eq]
  cases y with
  | error e =>
      simp only at hxs
      rw [hxs]
      rfl
  | ok b =>
      obtain ⟨a, s', hrun, hab, hs'⟩ := hxs
      rw [hrun]
      exact hf a b hab s' hs'

/-! ## Programs that cannot fail -/

/-- `x` returns what has `P`. -/
def Returns (Inv : σ → Prop) (P : α → Prop) (x : StateT σ (Except ε) α) : Prop :=
  ∀ s, Inv s → ∃ a s', x s = .ok (a, s') ∧ P a ∧ Inv s'

variable {P : α → Prop} {S : γ → Prop} {f : α → StateT σ (Except ε) γ}

theorem returns_pure {a : α} (h : P a) : Returns Inv P (pure a : StateT σ (Except ε) α) :=
  fun s hs => ⟨a, s, rfl, h, hs⟩

theorem Returns.bind (hx : Returns Inv P x) (hf : ∀ a, P a → Returns Inv S (f a)) :
    Returns Inv S (x >>= f) := by
  intro s hs
  obtain ⟨a, s', hrun, ha, hs'⟩ := hx s hs
  rw [bind_eq, hrun]
  exact hf a ha s' hs'

theorem Returns.mono {P' : α → Prop} (hx : Returns Inv P x) (h : ∀ a, P a → P' a) :
    Returns Inv P' x := by
  intro s hs
  obtain ⟨a, s', hrun, ha, hs'⟩ := hx s hs
  exact ⟨a, s', hrun, h a ha, hs'⟩

/-- A step whose result `y` does not need. -/
theorem Returns.after {z : Except ε δ} (hx : Returns Inv P x)
    (hf : ∀ a, P a → Tracks Inv Q (f a) z) : Tracks Inv Q (x >>= f) z := by
  intro s hs
  obtain ⟨a, s', hrun, ha, hs'⟩ := hx s hs
  rw [bind_eq, hrun]
  exact hf a ha s' hs'

/-- A program that cannot fail tracks its result. -/
theorem Returns.tracks {b : β} (hx : Returns Inv (fun a => R a b) x) : Tracks Inv R x (.ok b) := hx

end StateT
