import XLArig.Traced

/-!
# XLArig.Traced.Moved

Two programs whose stores are related in a way that changes as they run.

`Moved T P P' x y Q` compares two programs on stores that `P` relates: their values are related by
`Q`, the stores that they leave by `P'`, and what the first one notes satisfies `T`.  It goes
through `do` blocks by `moved_bind`, through branches by `moved_ite` and through loops by
`moved_loop`, where the relation of the stores may depend on the round.
-/

namespace XLArig

namespace Traced

variable {σ τ α β γ δ : Type}

/-- From stores related by `P`, the values are related by `Q` and the stores by `P'`; what `x` notes
satisfies `T`. -/
def Moved (T : τ → Prop) (P P' : σ → σ → Prop) (x : Traced σ τ α) (y : Traced σ τ β)
    (Q : α → β → Prop) : Prop :=
  ∀ m m', P m m' → Q (x m).1 (y m').1 ∧ P' (x m).2.1 (y m').2.1 ∧ ∀ t ∈ x.noted m, T t

section

variable {T : τ → Prop} {P P' P'' : σ → σ → Prop} {x : Traced σ τ α} {y : Traced σ τ β}
  {Q R : α → β → Prop} {S : γ → δ → Prop} {f : α → Traced σ τ γ} {g : β → Traced σ τ δ} {a : α}
  {b : β} {t u : τ}

theorem moved_pure (h : Q a b) :
    Moved T P P (pure a : Traced σ τ α) (pure b : Traced σ τ β) Q := by
  intro m m' hm
  refine ⟨h, hm, ?_⟩
  simp

theorem moved_bind (hx : Moved T P P' x y Q) (hf : ∀ a b, Q a b → Moved T P' P'' (f a) (g b) S) :
    Moved T P P'' (x >>= f) (y >>= g) S := by
  intro m m' hm
  obtain ⟨hval, hstore, hnoted⟩ := hx m m' hm
  obtain ⟨hval', hstore', hnoted'⟩ := hf _ _ hval _ _ hstore
  refine ⟨hval', hstore', fun t ht => ?_⟩
  rcases List.mem_append.mp (noted_bind x f m ▸ ht) with h | h
  · exact hnoted t h
  · exact hnoted' t h

/-- A step whose values do not matter. -/
theorem moved_seq (hx : Moved T P P' x y fun _ _ => True)
    (hf : ∀ a b, Moved T P' P'' (f a) (g b) S) : Moved T P P'' (x >>= f) (y >>= g) S :=
  moved_bind hx fun a b _ => hf a b

/-- A step with equal values. -/
theorem moved_same {y : Traced σ τ α} {g : α → Traced σ τ δ} (hx : Moved T P P' x y Eq)
    (hf : ∀ a, Moved T P' P'' (f a) (g a) S) : Moved T P P'' (x >>= f) (y >>= g) S := by
  refine moved_bind hx fun a b hab => ?_
  subst hab
  exact hf a

theorem moved_read {f g : σ → γ} (ht : T t) (h : ∀ m m', P m m' → f m = g m') :
    Moved T P P (read t f) (read u g) Eq := by
  intro m m' hm
  refine ⟨h m m' hm, hm, ?_⟩
  simp [noted, read, ht]

theorem moved_write {f g : σ → σ} (ht : T t) (h : ∀ m m', P m m' → P' (f m) (g m')) :
    Moved T P P' (write t f) (write u g) fun _ _ => True := by
  intro m m' hm
  refine ⟨trivial, h m m' hm, ?_⟩
  simp [noted, write, ht]

theorem moved_ite {c : Prop} [Decidable c] {x' : Traced σ τ α} {y' : Traced σ τ β}
    (h : c → Moved T P P' x y Q) (h' : ¬ c → Moved T P P' x' y' Q) :
    Moved T P P' (if c then x else x') (if c then y else y') Q := by
  by_cases hc : c
  · rw [if_pos hc, if_pos hc]
    exact h hc
  · rw [if_neg hc, if_neg hc]
    exact h' hc

theorem Moved.mono (hx : Moved T P P' x y Q) (h : ∀ a b, Q a b → R a b) :
    Moved T P P' x y R := by
  intro m m' hm
  obtain ⟨hval, hrest⟩ := hx m m' hm
  exact ⟨h _ _ hval, hrest⟩

theorem Moved.leave (hx : Moved T P P' x y Q) (h : ∀ m m', P' m m' → P'' m m') :
    Moved T P P'' x y Q := by
  intro m m' hm
  obtain ⟨hval, hstore, hnoted⟩ := hx m m' hm
  exact ⟨hval, h _ _ hstore, hnoted⟩

/-- A list of one. -/
theorem moved_each (hfg : Moved T P P' (f a) (g b) S) :
    Moved T P P' (each f [a]) (each g [b]) fun as bs => ∃ a b, as = [a] ∧ bs = [b] ∧ S a b :=
  moved_bind hfg fun a b hab => moved_pure ⟨a, b, rfl, rfl, hab⟩

/-- Stores that are related before the first round by `P 0` are related after `n` by `P n`. -/
theorem moved_loop {P : Nat → σ → σ → Prop} {body : Nat → α → Traced σ τ α}
    {body' : Nat → β → Traced σ τ β} {n : Nat} {I : Nat → α → β → Prop} (hinit : I 0 a b)
    (hbody : ∀ i a b, i < n → I i a b →
      Moved T (P i) (P (i + 1)) (body i a) (body' i b) (I (i + 1))) :
    Moved T (P 0) (P n) (loop body n a) (loop body' n b) (I n) := by
  induction n with
  | zero => exact moved_pure hinit
  | succ n ih =>
      have hrounds := ih fun i a b hi => hbody i a b (by omega)
      exact moved_bind hrounds fun a b hab => hbody n a b (Nat.lt_succ_self n) hab

/-- Programs in turn, for a list of one each. -/
theorem moved_inTurn_each {fs : List (α → Traced σ τ α)} {gs : List (β → Traced σ τ β)}
    (h : List.Forall₂ (fun f g => ∀ a b, Q a b → Moved T P P (f a) (g b) Q) fs gs) (hab : Q a b) :
    Moved T P P (inTurn (fs.map each) [a]) (inTurn (gs.map each) [b])
      fun as bs => ∃ a b, as = [a] ∧ bs = [b] ∧ Q a b := by
  induction h generalizing a b with
  | nil => exact moved_pure ⟨a, b, rfl, rfl, hab⟩
  | @cons f g fs gs hfg hrest ih =>
      refine moved_bind (moved_each (hfg a b hab)) ?_
      rintro _ _ ⟨a, b, rfl, rfl, hab⟩
      exact ih hab

end

end Traced

end XLArig
