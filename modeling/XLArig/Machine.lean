import Mathlib

/-!
# XLArig.Machine

Labelled transition functions and the states their runs reach.

A `Machine` steps by a partial function of the state and an event, so the
nondeterminism of a system (which thread moves next, what the environment
delivers) is in the list of events and every run can be evaluated.  The two
rules the developments above use are

* `ReachableIf.invariant` — what the initial states satisfy and every guarded
  step preserves holds in every state of a guarded run;
* `Refines.reachable` — an abstraction function that maps each step to a run of
  another machine maps reachable states to reachable states.
-/

/-- A transition system with a partial step function; `none` says that the
event is not enabled. -/
structure Machine (σ ε : Type*) where
  init : σ → Prop
  step : σ → ε → Option σ

namespace Machine

variable {σ ε τ δ : Type*} {M : Machine σ ε} {N : Machine τ δ}
variable {guard guard' : σ → ε → Prop} {s s' : σ}

/-! ## Runs -/

/-- Take the steps of a list of events in order. -/
def run (M : Machine σ ε) : σ → List ε → Option σ
  | s, [] => some s
  | s, e :: es => (M.step s e).bind (run M · es)

theorem run_append (es es' : List ε) :
    M.run s (es ++ es') = (M.run s es).bind (M.run · es') := by
  induction es generalizing s with
  | nil => rfl
  | cons e es ih =>
      simp only [List.cons_append, run]
      cases M.step s e with
      | none => rfl
      | some t => exact ih

/-- Every step of the run of `es` from `s` is taken under `guard`. -/
def Meets (M : Machine σ ε) (guard : σ → ε → Prop) : σ → List ε → Prop
  | _, [] => True
  | s, e :: es => guard s e ∧
      match M.step s e with
      | some t => Meets M guard t es
      | none => True

instance decidableMeets (M : Machine σ ε) (guard : σ → ε → Prop)
    [∀ s e, Decidable (guard s e)] : (s : σ) → (es : List ε) → Decidable (M.Meets guard s es)
  | _, [] => inferInstanceAs (Decidable True)
  | s, e :: es =>
      match h : M.step s e with
      | some t =>
          have : Decidable (M.Meets guard t es) := decidableMeets M guard t es
          decidable_of_iff (guard s e ∧ M.Meets guard t es) (by simp only [Meets, h])
      | none => decidable_of_iff (guard s e) (by simp only [Meets, h, and_true])

/-- What every step keeps just under `guard` holds at the end of a run that began with it
just when all of its steps were taken under `guard`. -/
theorem meets_iff {P : σ → Prop} {es : List ε}
    (hstep : ∀ s e s', M.step s e = some s' → (P s' ↔ guard s e ∧ P s))
    (hr : M.run s es = some s') (hs : P s) : P s' ↔ M.Meets guard s es := by
  have hback : ∀ s, M.run s es = some s' → (P s' ↔ M.Meets guard s es ∧ P s) := by
    clear hr hs
    intro s hr
    induction es generalizing s with
    | nil =>
        obtain rfl := Option.some.inj hr
        simp only [Meets, true_and]
    | cons e es ih =>
        simp only [run, Meets] at hr ⊢
        cases ht : M.step s e with
        | none => simp only [ht, Option.bind_none] at hr; contradiction
        | some t =>
            simp only [ht, Option.bind_some] at hr ⊢
            rw [ih t hr, hstep _ _ _ ht]
            tauto
  rw [hback s hr, and_iff_left hs]

/-- Guards that agree where the invariant holds are met by the same runs. -/
theorem meets_congr {Inv : σ → Prop} {es : List ε} (hs : Inv s)
    (hstep : ∀ s e s', Inv s → M.step s e = some s' → Inv s')
    (hiff : ∀ s e, Inv s → (guard s e ↔ guard' s e)) :
    M.Meets guard s es ↔ M.Meets guard' s es := by
  induction es generalizing s with
  | nil => exact Iff.rfl
  | cons e es ih =>
      simp only [Meets]
      refine and_congr (hiff s e hs) ?_
      cases ht : M.step s e with
      | none => exact Iff.rfl
      | some t => exact ih (hstep s e t hs ht)

/-- `P` holds in every state that the run of `es` from `s` goes through. -/
def Always (M : Machine σ ε) (P : σ → Prop) : σ → List ε → Prop
  | s, [] => P s
  | s, e :: es => P s ∧
      match M.step s e with
      | some t => Always M P t es
      | none => True

/-- What holds at first, and after a step just when that is taken under `guard`, holds all
along a run just when all of its steps are. -/
theorem always_iff {P : σ → Prop} {es : List ε}
    (hstep : ∀ s e s', P s → M.step s e = some s' → (P s' ↔ guard s e))
    (hr : M.run s es = some s') (hs : P s) : M.Always P s es ↔ M.Meets guard s es := by
  have hfirst : ∀ t es, M.Always P t es → P t := by
    intro t es h
    cases es with
    | nil => exact h
    | cons e es => exact h.1
  induction es generalizing s with
  | nil => exact ⟨fun _ => trivial, fun _ => hs⟩
  | cons e es ih =>
      simp only [run, Meets, Always] at hr ⊢
      cases ht : M.step s e with
      | none => simp only [ht, Option.bind_none] at hr; contradiction
      | some t =>
          simp only [ht, Option.bind_some] at hr ⊢
          rw [← hstep s e t hs ht]
          constructor
          · rintro ⟨-, halways⟩
            have hp := hfirst t es halways
            exact ⟨hp, (ih hr hp).mp halways⟩
          · rintro ⟨hp, hmeets⟩
            exact ⟨hs, (ih hr hp).mpr hmeets⟩

/-- The same for a property that follows from an invariant, which the guarded steps keep. -/
theorem always_iff_of_invariant {P Inv : σ → Prop} {es : List ε} (hinv : ∀ s, Inv s → P s)
    (hstep : ∀ s e s', Inv s → M.step s e = some s' →
      (P s' ↔ guard s e) ∧ (guard s e → Inv s'))
    (hr : M.run s es = some s') (hs : Inv s) : M.Always P s es ↔ M.Meets guard s es := by
  induction es generalizing s with
  | nil => exact ⟨fun _ => trivial, fun _ => hinv s hs⟩
  | cons e es ih =>
      simp only [run, Meets, Always] at hr ⊢
      cases ht : M.step s e with
      | none => simp only [ht, Option.bind_none] at hr; contradiction
      | some t =>
          simp only [ht, Option.bind_some] at hr ⊢
          obtain ⟨hiff, hkeep⟩ := hstep s e t hs ht
          constructor
          · rintro ⟨-, halways⟩
            have hp : P t := by
              cases es with
              | nil => exact halways
              | cons e es => exact halways.1
            exact ⟨hiff.mp hp, (ih hr (hkeep (hiff.mp hp))).mp halways⟩
          · rintro ⟨hguard, hmeets⟩
            exact ⟨hinv s hs, (ih hr (hkeep hguard)).mpr hmeets⟩

/-! ## Reachable states -/

/-- The states of the runs whose steps are all taken under `guard`. -/
inductive ReachableIf (M : Machine σ ε) (guard : σ → ε → Prop) : σ → Prop
  | init {s : σ} : M.init s → ReachableIf M guard s
  | step {s s' : σ} {e : ε} :
      ReachableIf M guard s → guard s e → M.step s e = some s' → ReachableIf M guard s'

/-- The states of all runs. -/
abbrev Reachable (M : Machine σ ε) : σ → Prop := M.ReachableIf fun _ _ => True

/-- The invariant rule. -/
theorem ReachableIf.invariant {Inv : σ → Prop} (h : M.ReachableIf guard s)
    (hinit : ∀ s, M.init s → Inv s)
    (hstep : ∀ s e s', Inv s → guard s e → M.step s e = some s' → Inv s') : Inv s := by
  induction h with
  | init h0 => exact hinit _ h0
  | step _ hg hs ih => exact hstep _ _ _ ih hg hs

theorem ReachableIf.mono (h : M.ReachableIf guard s)
    (himp : ∀ s e, guard s e → guard' s e) : M.ReachableIf guard' s := by
  induction h with
  | init h0 => exact .init h0
  | step _ hg hs ih => exact .step ih (himp _ _ hg) hs

/-- What no step can bring about holds all along a run that ends with it. -/
theorem Reachable.guarded {P : σ → Prop} (h : M.Reachable s) (hp : P s)
    (hback : ∀ s e s', M.step s e = some s' → P s' → P s) :
    M.ReachableIf (fun s e => ∀ s', M.step s e = some s' → P s') s := by
  induction h with
  | init h0 => exact .init h0
  | step _ _ hs ih =>
      refine .step (ih (hback _ _ _ hs hp)) ?_ hs
      intro t ht
      obtain rfl := Option.some.inj (hs.symm.trans ht)
      exact hp

/-- A guarded run stays among the reachable states. -/
theorem ReachableIf.run {es : List ε} (h : M.ReachableIf guard s)
    (hm : M.Meets guard s es) (hr : M.run s es = some s') : M.ReachableIf guard s' := by
  induction es generalizing s with
  | nil =>
      obtain rfl := Option.some.inj hr
      exact h
  | cons e es ih =>
      simp only [Machine.run, Meets] at hr hm
      cases ht : M.step s e with
      | none => simp only [ht, Option.bind_none] at hr; contradiction
      | some t =>
          simp only [ht, Option.bind_some] at hr hm
          exact ih (h.step hm.1 ht) hm.2 hr

theorem meets_true (s : σ) (es : List ε) : M.Meets (fun _ _ => True) s es := by
  induction es generalizing s with
  | nil => trivial
  | cons e es ih =>
      simp only [Meets, true_and]
      cases M.step s e with
      | none => trivial
      | some t => exact ih t

/-- Any run stays among the reachable states. -/
theorem Reachable.run {es : List ε} (h : M.Reachable s) (hr : M.run s es = some s') :
    M.Reachable s' :=
  ReachableIf.run h (meets_true s es) hr

/-- A guarded run that is evaluated up to a test reaches a state that passes the
test. -/
theorem ReachableIf.exists_of_run {p : σ → Bool} {es : List ε} (h0 : M.init s)
    (hm : M.Meets guard s es) (h : (M.run s es).any p = true) :
    ∃ s', M.ReachableIf guard s' ∧ p s' = true := by
  cases hr : M.run s es with
  | none => simp only [hr, Option.any_none] at h; contradiction
  | some t =>
      simp only [hr, Option.any_some] at h
      exact ⟨t, ReachableIf.run (.init h0) hm hr, h⟩

theorem Reachable.exists_of_run {p : σ → Bool} {es : List ε} (h0 : M.init s)
    (h : (M.run s es).any p = true) : ∃ s', M.Reachable s' ∧ p s' = true :=
  ReachableIf.exists_of_run h0 (meets_true s es) h

/-! ## Refinement through an abstraction function -/

/-- `abs` maps every guarded step of `M` to a run of `N`. -/
structure Refines (M : Machine σ ε) (guard : σ → ε → Prop) (N : Machine τ δ)
    (abs : σ → τ) : Prop where
  init : ∀ s, M.init s → N.init (abs s)
  step : ∀ s e s', M.ReachableIf guard s → guard s e → M.step s e = some s' →
    ∃ ds, N.run (abs s) ds = some (abs s')

/-- A refinement maps reachable states to reachable states. -/
theorem Refines.reachable {abs : σ → τ} (hr : Refines M guard N abs)
    (h : M.ReachableIf guard s) : N.Reachable (abs s) := by
  induction h with
  | init h0 => exact .init (hr.init _ h0)
  | step h hg hs ih =>
      obtain ⟨ds, hds⟩ := hr.step _ _ _ h hg hs
      exact Reachable.run ih hds

end Machine
