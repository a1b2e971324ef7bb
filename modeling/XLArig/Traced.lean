import Mathlib

/-!
# XLArig.Traced

Programs over a store that note what they touch.

`Confined P x Q` says that every note of `x` satisfies `P` and its value `Q`, from any store;
it goes through `do` blocks by `confined_bind` and through loops by an invariant
(`confined_loop`, `confined_each`, `confined_inTurn`).  `Touches t x` says that `x` notes `t`
from any store; a loop touches what the round of the number that its invariant names touches
(`touches_loop`).
-/

namespace XLArig

/-- A program with a store of type `σ` and notes of type `τ`: the value, the store it leaves
and its notes. -/
def Traced (σ τ α : Type) := σ → α × σ × List τ

namespace Traced

variable {σ τ α β : Type}

instance : Monad (Traced σ τ) where
  pure a := fun s => (a, s, [])
  bind x f := fun s =>
    let (a, s₁, noted₁) := x s
    let (b, s₂, noted₂) := f a s₁
    (b, s₂, noted₁ ++ noted₂)

/-- What a run from `s` notes. -/
def noted (x : Traced σ τ α) (s : σ) : List τ := (x s).2.2

/-- Read the store and note `t`. -/
def read (t : τ) (f : σ → α) : Traced σ τ α := fun s => (f s, s, [t])

/-- Change the store and note `t`. -/
def write (t : τ) (f : σ → σ) : Traced σ τ Unit := fun s => ((), f s, [t])

/-- The rounds `0, …, n - 1` of a loop. -/
def loop (body : Nat → α → Traced σ τ α) : Nat → α → Traced σ τ α
  | 0, a => pure a
  | n + 1, a => do
      let a ← loop body n a
      body n a

/-- One program for each element. -/
def each (f : α → Traced σ τ β) : List α → Traced σ τ (List β)
  | [] => pure []
  | a :: as => do
      let b ← f a
      let bs ← each f as
      pure (b :: bs)

/-- The programs in turn, each from what the one before it leaves. -/
def inTurn : List (α → Traced σ τ α) → α → Traced σ τ α
  | [], a => pure a
  | f :: fs, a => do
      let a ← f a
      inTurn fs a

/-! ## What is noted -/

/-- Every note satisfies `P` and the value `Q`, whatever the store. -/
def Confined (P : τ → Prop) (x : Traced σ τ α) (Q : α → Prop) : Prop :=
  ∀ s, Q (x s).1 ∧ ∀ t ∈ x.noted s, P t

/-- `t` is noted, whatever the store. -/
def Touches (t : τ) (x : Traced σ τ α) : Prop := ∀ s, t ∈ x.noted s

section

variable {P : τ → Prop} {Q R : α → Prop} {S : β → Prop} {x : Traced σ τ α}
  {f : α → Traced σ τ β} {a : α} {t : τ} {n : Nat}

@[simp] theorem noted_pure (a : α) (s : σ) : noted (pure a : Traced σ τ α) s = [] := rfl

@[simp] theorem noted_bind (x : Traced σ τ α) (f : α → Traced σ τ β) (s : σ) :
    noted (x >>= f) s = x.noted s ++ (f (x s).1).noted (x s).2.1 := rfl

theorem confined_pure (h : Q a) : Confined P (pure a : Traced σ τ α) Q := by
  intro s
  refine ⟨h, ?_⟩
  simp

theorem confined_bind (hx : Confined P x Q) (hf : ∀ a, Q a → Confined P (f a) S) :
    Confined P (x >>= f) S := by
  intro s
  have hnext := hf _ (hx s).1 (x s).2.1
  refine ⟨hnext.1, fun t ht => ?_⟩
  rcases List.mem_append.mp (noted_bind x f s ▸ ht) with h | h
  · exact (hx s).2 t h
  · exact hnext.2 t h

/-- A step whose value does not matter. -/
theorem confined_seq (hx : Confined P x fun _ => True) (hf : ∀ a, Confined P (f a) S) :
    Confined P (x >>= f) S :=
  confined_bind hx fun a _ => hf a

theorem confined_read (f : σ → α) (h : P t) : Confined P (read t f) fun _ => True := by
  intro s
  simp [noted, read, h]

theorem confined_write (f : σ → σ) (h : P t) : Confined P (write t f) fun _ => True := by
  intro s
  simp [noted, write, h]

theorem Confined.ite {c : Prop} [Decidable c] {y : Traced σ τ α} (hx : c → Confined P x Q)
    (hy : ¬ c → Confined P y Q) : Confined P (if c then x else y) Q := by
  by_cases hc : c
  · rw [if_pos hc]
    exact hx hc
  · rw [if_neg hc]
    exact hy hc

theorem Confined.mono (hx : Confined P x Q) (h : ∀ a, Q a → R a) : Confined P x R :=
  fun s => ⟨h _ (hx s).1, (hx s).2⟩

theorem confined_true (x : Traced σ τ α) : Confined (fun _ => True) x fun _ => True :=
  fun _ => ⟨trivial, fun _ _ => trivial⟩

/-- The invariant `I i` holds when `i` rounds are over. -/
theorem confined_loop {I : Nat → α → Prop} {body : Nat → α → Traced σ τ α} (hinit : I 0 a)
    (hbody : ∀ i a, i < n → I i a → Confined P (body i a) (I (i + 1))) :
    Confined P (loop body n a) (I n) := by
  induction n with
  | zero => exact confined_pure hinit
  | succ n ih =>
      have hrounds := ih fun i a hi => hbody i a (by omega)
      exact confined_bind hrounds fun a ha => hbody n a (Nat.lt_succ_self n) ha

theorem confined_each {as : List α} (h : ∀ a ∈ as, Confined P (f a) S) :
    Confined P (each f as) fun bs => ∀ b ∈ bs, S b := by
  induction as with
  | nil => exact confined_pure (by simp)
  | cons a as ih =>
      refine confined_bind (h a List.mem_cons_self) fun b hb => ?_
      refine confined_bind (ih fun a ha => h a (List.mem_cons_of_mem _ ha)) fun bs hbs => ?_
      exact confined_pure (List.forall_mem_cons.mpr ⟨hb, hbs⟩)

theorem confined_inTurn {fs : List (α → Traced σ τ α)} (ha : Q a)
    (h : ∀ f ∈ fs, ∀ a, Q a → Confined P (f a) Q) : Confined P (inTurn fs a) Q := by
  induction fs generalizing a with
  | nil => exact confined_pure ha
  | cons f fs ih =>
      refine confined_bind (h f List.mem_cons_self a ha) fun a ha => ?_
      exact ih ha fun f hf => h f (List.mem_cons_of_mem _ hf)

/-! ## What is touched -/

theorem touches_bind_left (h : Touches t x) : Touches t (x >>= f) := fun s =>
  List.mem_append_left _ (h s)

theorem touches_bind_right (hx : Confined (fun _ => True) x Q) (h : ∀ a, Q a → Touches t (f a)) :
    Touches t (x >>= f) := fun s =>
  List.mem_append_right _ (h _ (hx s).1 _)

theorem touches_write (f : σ → σ) : Touches t (write t f) := by
  intro s
  simp [noted, write]

theorem touches_loop {I : Nat → α → Prop} {body : Nat → α → Traced σ τ α} {i : Nat} (hi : i < n)
    (hinit : I 0 a)
    (hbody : ∀ i a, I i a → Confined (fun _ => True) (body i a) (I (i + 1)))
    (h : ∀ a, I i a → Touches t (body i a)) : Touches t (loop body n a) := by
  induction n with
  | zero => omega
  | succ n ih =>
      by_cases heq : i = n
      · subst heq
        exact touches_bind_right (confined_loop hinit fun i a _ => hbody i a) h
      · exact touches_bind_left (ih (by omega))

end

end Traced

end XLArig
