import XLArig.Machine

/-!
# XLArig.Window

Half-open windows of natural numbers, and the dispenser that hands them out of
a counter that only grows.

`Dispenser` is the abstract picture of a fetch-and-add allocator: a client draws
the window at the counter, and later keeps it or drops it.  Whatever the order in
which the clients draw, keep and drop, the windows that were kept are pairwise
apart (`Dispenser.kept_pairwise`).
-/

/-- The window `[start, start + size)`. -/
structure Window where
  start : Nat
  size : Nat
  deriving DecidableEq, Repr

namespace Window

variable {v w : Window} {n : Nat}

/-- The first number after the window. -/
def stop (w : Window) : Nat := w.start + w.size

/-- The numbers of the window. -/
def toSet (w : Window) : Set Nat := Set.Ico w.start w.stop

instance : Membership Nat Window := ⟨fun w n => w.start ≤ n ∧ n < w.stop⟩

theorem mem_iff : n ∈ w ↔ w.start ≤ n ∧ n < w.start + w.size := Iff.rfl

instance : Decidable (n ∈ w) := inferInstanceAs (Decidable (_ ∧ _))

/-- One window ends before the other starts. -/
def Apart (v w : Window) : Prop := v.stop ≤ w.start ∨ w.stop ≤ v.start

instance : Decidable (Apart v w) := inferInstanceAs (Decidable (_ ∨ _))

theorem Apart.symm (h : Apart v w) : Apart w v := Or.symm h

theorem Apart.disjoint (h : Apart v w) : Disjoint v.toSet w.toSet := by
  rw [toSet, toSet, Set.Ico_disjoint_Ico]
  rcases h with h | h
  · exact (min_le_left _ _).trans (h.trans (le_max_right _ _))
  · exact (min_le_right _ _).trans (h.trans (le_max_left _ _))

theorem Apart.not_mem (h : Apart v w) (hv : n ∈ v) : n ∉ w := by
  intro hw
  simp only [mem_iff, Apart, stop] at h hv hw
  omega

/-- No multiple of `b` lies strictly inside the window. -/
def Within (b : Nat) (w : Window) : Prop := w.start % b + w.size ≤ b

end Window

/-! ## The dispenser -/

/-- A counter, the window each client has drawn and not yet decided about, and
the windows that were kept, the newest first. -/
structure Dispenser (ι : Type*) where
  next : Nat
  drawn : ι → Option Window
  kept : List Window

namespace Dispenser

variable {ι : Type*} [DecidableEq ι]

/-- What a client does. -/
inductive Event (ι : Type*)
  | draw (i : ι) (size : Nat)
  | drop (i : ι)
  | keep (i : ι)

open Event

/-- Draw the window at the counter, give it up, or keep it. -/
def step (d : Dispenser ι) : Event ι → Option (Dispenser ι)
  | draw i size =>
      some { d with next := d.next + size, drawn := Function.update d.drawn i (some ⟨d.next, size⟩) }
  | drop i => some { d with drawn := Function.update d.drawn i none }
  | keep i =>
      match d.drawn i with
      | some w => some { d with drawn := Function.update d.drawn i none, kept := w :: d.kept }
      | none => none

/-- The dispenser starts with nothing drawn and nothing kept. -/
def machine (ι : Type*) [DecidableEq ι] : Machine (Dispenser ι) (Event ι) where
  init d := d = ⟨0, fun _ => none, []⟩
  step := step

/-- Every window lies below the counter, and no two of them overlap. -/
structure Inv (d : Dispenser ι) : Prop where
  drawn_le : ∀ i w, d.drawn i = some w → w.stop ≤ d.next
  kept_le : ∀ w ∈ d.kept, w.stop ≤ d.next
  drawn_apart : ∀ i j v w, i ≠ j → d.drawn i = some v → d.drawn j = some w → v.Apart w
  drawn_kept : ∀ i v, d.drawn i = some v → ∀ w ∈ d.kept, v.Apart w
  kept_apart : d.kept.Pairwise Window.Apart

variable {d d' : Dispenser ι} {i : ι}

/-- Emptying a client's hand preserves the invariant. -/
theorem Inv.release (h : d.Inv) (i : ι) :
    Inv { d with drawn := Function.update d.drawn i none } := by
  have hold : ∀ j w, Function.update d.drawn i none j = some w → d.drawn j = some w := by
    intro j w hw
    by_cases hj : j = i
    · subst hj; simp at hw
    · rwa [Function.update_of_ne hj] at hw
  exact
    { drawn_le := fun j w hw => h.drawn_le j w (hold j w hw)
      kept_le := h.kept_le
      drawn_apart := fun j k v w hjk hv hw => h.drawn_apart j k v w hjk (hold j v hv) (hold k w hw)
      drawn_kept := fun j v hv => h.drawn_kept j v (hold j v hv)
      kept_apart := h.kept_apart }

/-- Drawing takes a window that starts where all others have ended. -/
theorem Inv.draw (h : d.Inv) (i : ι) (size : Nat) :
    Inv { d with next := d.next + size, drawn := Function.update d.drawn i (some ⟨d.next, size⟩) } := by
  have hcase : ∀ j w, Function.update d.drawn i (some ⟨d.next, size⟩) j = some w →
      (j = i ∧ w = ⟨d.next, size⟩) ∨ (j ≠ i ∧ d.drawn j = some w) := by
    intro j w hw
    by_cases hj : j = i
    · subst hj
      rw [Function.update_self] at hw
      exact .inl ⟨rfl, (Option.some.inj hw).symm⟩
    · rw [Function.update_of_ne hj] at hw
      exact .inr ⟨hj, hw⟩
  refine ⟨?_, fun w hw => Nat.le_add_right_of_le (h.kept_le w hw), ?_, ?_, h.kept_apart⟩
  · intro j w hw
    rcases hcase j w hw with ⟨-, rfl⟩ | ⟨-, hw⟩
    · exact Nat.le_refl _
    · exact Nat.le_add_right_of_le (h.drawn_le j w hw)
  · intro j k v w hjk hv hw
    rcases hcase j v hv with ⟨hj, rfl⟩ | ⟨hj, hv⟩ <;> rcases hcase k w hw with ⟨hk, rfl⟩ | ⟨hk, hw⟩
    · exact absurd (hj.trans hk.symm) hjk
    · exact .inr (h.drawn_le k w hw)
    · exact .inl (h.drawn_le j v hv)
    · exact h.drawn_apart j k v w hjk hv hw
  · intro j v hv w hw
    rcases hcase j v hv with ⟨-, rfl⟩ | ⟨-, hv⟩
    · exact .inr (h.kept_le w hw)
    · exact h.drawn_kept j v hv w hw

theorem inv_step {e : Event ι} (h : d.Inv) (hs : step d e = some d') : d'.Inv := by
  cases e with
  | draw i size => obtain rfl := Option.some.inj hs; exact h.draw i size
  | drop i => obtain rfl := Option.some.inj hs; exact h.release i
  | keep i =>
      simp only [step] at hs
      cases hw : d.drawn i with
      | none => simp only [hw] at hs; contradiction
      | some w =>
          simp only [hw] at hs
          obtain rfl := Option.some.inj hs
          have hr := h.release i
          refine ⟨hr.drawn_le, ?_, hr.drawn_apart, ?_, ?_⟩
          · exact List.forall_mem_cons.mpr ⟨h.drawn_le i w hw, h.kept_le⟩
          · intro j v hv
            refine List.forall_mem_cons.mpr ⟨?_, hr.drawn_kept j v hv⟩
            have hj : j ≠ i := by
              rintro rfl
              simp at hv
            replace hv : Function.update d.drawn i none j = some v := hv
            rw [Function.update_of_ne hj] at hv
            exact h.drawn_apart j i v w hj hv hw
          · exact List.pairwise_cons.mpr ⟨h.drawn_kept i w hw, h.kept_apart⟩

theorem inv_of_reachable (h : (machine ι).Reachable d) : d.Inv :=
  h.invariant
    (by rintro d rfl; exact ⟨by simp, by simp, by simp, by simp, .nil⟩)
    fun _ _ _ ih _ hs => inv_step ih hs

/-- **Windows that were kept never overlap**, whatever the order of the draws. -/
theorem kept_pairwise (h : (machine ι).Reachable d) : d.kept.Pairwise Window.Apart :=
  (inv_of_reachable h).kept_apart

end Dispenser
