import XLArig.Window

/-!
# XLArig.Walk

Walkers that visit the numbers of the windows they hold, one after the other.

Windows are dealt above everything dealt before, so as long as each walker stays
in the windows it was dealt, no number is visited twice (`Walk.log_nodup`).
-/

/-- The first number not dealt yet, the window each walker holds with how many
of its numbers were visited, and the visited numbers, the newest first. -/
structure Walk (κ : Type*) where
  next : Nat
  held : κ → Option (Window × Nat)
  log : List Nat

namespace Walk

variable {κ : Type*}

/-- What happens to the walkers. -/
inductive Event (κ : Type*)
  | deal (next : Nat) (windows : κ → Option Window)
  | visit (keys : List κ)
  | drop (keys : List κ)

/-- The number a walker visits next. -/
def number (s : Walk κ) (k : κ) : Option Nat := (s.held k).map fun x => x.1.start + x.2

/-- The windows of one deal lie between the old and the new `next`, apart from
each other. -/
structure Dealt (s : Walk κ) (next : Nat) (windows : κ → Option Window) : Prop where
  le : s.next ≤ next
  inside : ∀ k w, windows k = some w → s.next ≤ w.start ∧ w.stop ≤ next
  apart : ∀ k l v w, k ≠ l → windows k = some v → windows l = some w → v.Apart w

/-- The walkers of `keys` all have a number left to visit. -/
structure Ready (s : Walk κ) (keys : List κ) : Prop where
  nodup : keys.Nodup
  left : ∀ k ∈ keys, ∃ w j, s.held k = some (w, j) ∧ j < w.size

/-- The dealt windows replace the ones held before. -/
def deal (s : Walk κ) (next : Nat) (windows : κ → Option Window) : Walk κ :=
  { s with
    next := next
    held := fun k => match windows k with
      | some w => some (w, 0)
      | none => s.held k }

variable {s s' : Walk κ} {e : Event κ} {keys : List κ} {next : Nat} {windows : κ → Option Window}

/-- What a walker holds after a deal: a fresh window or the one it had. -/
theorem held_deal {k : κ} {w : Window} {j : Nat} (h : (s.deal next windows).held k = some (w, j)) :
    (windows k = some w ∧ j = 0) ∨ (windows k = none ∧ s.held k = some (w, j)) := by
  simp only [deal] at h
  cases hw : windows k with
  | some v =>
      simp only [hw, Option.some.injEq, Prod.mk.injEq] at h
      exact .inl ⟨congrArg some h.1, h.2.symm⟩
  | none =>
      simp only [hw] at h
      exact .inr ⟨rfl, h⟩

/-- The numbers one visit adds to the log. -/
theorem mem_visit {n : Nat} (hr : s.Ready keys) (h : n ∈ keys.filterMap s.number) :
    ∃ k ∈ keys, ∃ w j, s.held k = some (w, j) ∧ n = w.start + j ∧ n ∈ w := by
  obtain ⟨k, hk, hn⟩ := List.mem_filterMap.mp h
  obtain ⟨w, j, hw, hj⟩ := hr.left k hk
  simp only [number, hw, Option.map_some, Option.some.injEq] at hn
  subst hn
  exact ⟨k, hk, w, j, hw, rfl, Window.mem_iff.mpr ⟨by omega, by omega⟩⟩

/-- Held windows are apart and below `next`, and the visited numbers of a held
window are the first ones. -/
structure Inv (s : Walk κ) : Prop where
  held_le : ∀ k w j, s.held k = some (w, j) → w.stop ≤ s.next
  apart : ∀ k l v w i j, k ≠ l → s.held k = some (v, i) → s.held l = some (w, j) → v.Apart w
  log_lt : ∀ n ∈ s.log, n < s.next
  visited : ∀ n ∈ s.log, ∀ k w j, s.held k = some (w, j) → n ∈ w → n < w.start + j
  nodup : s.log.Nodup

theorem Inv.deal (h : s.Inv) (hd : s.Dealt next windows) : (s.deal next windows).Inv := by
  constructor
  · intro k w j hk
    cases held_deal hk with
    | inl hk => exact (hd.inside k w hk.1).2
    | inr hk => exact (h.held_le k w j hk.2).trans hd.le
  · intro k l v w i j hkl hv hw
    cases held_deal hv with
    | inl hv =>
        cases held_deal hw with
        | inl hw => exact hd.apart k l v w hkl hv.1 hw.1
        | inr hw => exact .inr ((h.held_le l w j hw.2).trans (hd.inside k v hv.1).1)
    | inr hv =>
        cases held_deal hw with
        | inl hw => exact .inl ((h.held_le k v i hv.2).trans (hd.inside l w hw.1).1)
        | inr hw => exact h.apart k l v w i j hkl hv.2 hw.2
  · exact fun n hn => (h.log_lt n hn).trans_le hd.le
  · intro n hn k w j hk hnw
    cases held_deal hk with
    | inl hk =>
        have hlt := h.log_lt n hn
        have hstart := (hd.inside k w hk.1).1
        rw [Window.mem_iff] at hnw
        omega
    | inr hk => exact h.visited n hn k w j hk.2 hnw
  · exact h.nodup

theorem Inv.nodup_visit (h : s.Inv) (hr : s.Ready keys) :
    (keys.filterMap s.number ++ s.log).Nodup := by
  rw [List.nodup_append]
  refine ⟨?_, h.nodup, ?_⟩
  · -- different walkers visit numbers of windows that are apart
    apply List.pairwise_filterMap.mpr
    apply hr.nodup.imp_of_mem
    intro k l hk hl hkl n hn m hm
    obtain ⟨v, i, hv, hi⟩ := hr.left k hk
    obtain ⟨w, j, hw, hj⟩ := hr.left l hl
    simp only [number, hv, hw, Option.map_some, Option.some.injEq] at hn hm
    have hnv : n ∈ v := Window.mem_iff.mpr ⟨by omega, by omega⟩
    have hmw : m ∈ w := Window.mem_iff.mpr ⟨by omega, by omega⟩
    have hapart := h.apart k l v w i j hkl hv hw
    show n ≠ m
    rintro rfl
    exact hapart.not_mem hnv hmw
  · intro n hn m hm
    obtain ⟨k, hk, w, j, hw, hnj, hnw⟩ := mem_visit hr hn
    rintro rfl
    have := h.visited n hm k w j hw hnw
    omega

variable [DecidableEq κ]

/-- Each walker of `keys` visits its next number. -/
def visit (s : Walk κ) (keys : List κ) : Walk κ :=
  { s with
    held := fun k => if k ∈ keys then (s.held k).map fun x => (x.1, x.2 + 1) else s.held k
    log := keys.filterMap s.number ++ s.log }

/-- The walkers of `keys` give their windows up. -/
def drop (s : Walk κ) (keys : List κ) : Walk κ :=
  { s with held := fun k => if k ∈ keys then none else s.held k }

open Classical in
noncomputable def step (s : Walk κ) : Event κ → Option (Walk κ)
  | .deal next windows => if s.Dealt next windows then some (s.deal next windows) else none
  | .visit keys => if s.Ready keys then some (s.visit keys) else none
  | .drop keys => some (s.drop keys)

/-- Walkers start with nothing held and nothing visited. -/
noncomputable def machine (κ : Type*) [DecidableEq κ] : Machine (Walk κ) (Event κ) where
  init s := (∀ k, s.held k = none) ∧ s.log = []
  step := step

theorem Inv.drop (h : s.Inv) : (s.drop keys).Inv := by
  have hold : ∀ k x, (s.drop keys).held k = some x → s.held k = some x := by
    intro k x hk
    simp only [Walk.drop] at hk
    split at hk
    · contradiction
    · exact hk
  exact
    { held_le := fun k w j hk => h.held_le k w j (hold k _ hk)
      apart := fun k l v w i j hkl hv hw => h.apart k l v w i j hkl (hold k _ hv) (hold l _ hw)
      log_lt := h.log_lt
      visited := fun n hn k w j hk => h.visited n hn k w j (hold k _ hk)
      nodup := h.nodup }

/-- What a walker holds after a visit. -/
theorem held_visit {k : κ} {w : Window} {j : Nat} (h : (s.visit keys).held k = some (w, j)) :
    (k ∈ keys ∧ ∃ i, s.held k = some (w, i) ∧ j = i + 1) ∨ (k ∉ keys ∧ s.held k = some (w, j)) := by
  simp only [visit] at h
  split at h
  · next hk =>
    obtain ⟨⟨v, i⟩, hv, heq⟩ := Option.map_eq_some_iff.mp h
    simp only [Prod.mk.injEq] at heq
    obtain ⟨rfl, rfl⟩ := heq
    exact .inl ⟨hk, i, hv, rfl⟩
  · next hk => exact .inr ⟨hk, h⟩

theorem Inv.visit (h : s.Inv) (hr : s.Ready keys) : (s.visit keys).Inv := by
  constructor
  · intro k w j hk
    cases held_visit hk with
    | inl hk =>
        obtain ⟨-, i, hi, -⟩ := hk
        exact h.held_le k w i hi
    | inr hk => exact h.held_le k w j hk.2
  · intro k l v w i j hkl hv hw
    have hold : ∀ k w j, (s.visit keys).held k = some (w, j) → ∃ i, s.held k = some (w, i) := by
      intro k w j hk
      cases held_visit hk with
      | inl hk => exact ⟨_, hk.2.choose_spec.1⟩
      | inr hk => exact ⟨j, hk.2⟩
    obtain ⟨i', hv'⟩ := hold k v i hv
    obtain ⟨j', hw'⟩ := hold l w j hw
    exact h.apart k l v w i' j' hkl hv' hw'
  · intro n hn
    cases List.mem_append.mp hn with
    | inl hn =>
        obtain ⟨k, -, w, j, hw, -, hnw⟩ := mem_visit hr hn
        exact hnw.2.trans_le (h.held_le k w j hw)
    | inr hn => exact h.log_lt n hn
  · intro n hn k w j hk hnw
    cases List.mem_append.mp hn with
    | inl hn =>
        -- the number was just visited, by the only walker whose window it is in
        obtain ⟨l, hl, v, i, hv, rfl, hnv⟩ := mem_visit hr hn
        by_cases hkl : k = l
        · subst hkl
          cases held_visit hk with
          | inl hk =>
              obtain ⟨-, i', hi', rfl⟩ := hk
              rw [hv, Option.some.injEq, Prod.mk.injEq] at hi'
              obtain ⟨rfl, rfl⟩ := hi'
              omega
          | inr hk => exact absurd hl hk.1
        · have hw : ∃ i', s.held k = some (w, i') := by
            cases held_visit hk with
            | inl hk => exact ⟨_, hk.2.choose_spec.1⟩
            | inr hk => exact ⟨j, hk.2⟩
          obtain ⟨i', hw⟩ := hw
          exact absurd hnw ((h.apart l k v w i i' (Ne.symm hkl) hv hw).not_mem hnv)
    | inr hn =>
        cases held_visit hk with
        | inl hk =>
            obtain ⟨-, i, hi, rfl⟩ := hk
            have := h.visited n hn k w i hi hnw
            omega
        | inr hk => exact h.visited n hn k w j hk.2 hnw
  · exact h.nodup_visit hr

theorem inv_step (h : s.Inv) (hs : step s e = some s') : s'.Inv := by
  cases e with
  | deal next windows =>
      simp only [step, Option.ite_none_right_eq_some, Option.some.injEq] at hs
      obtain ⟨hd, rfl⟩ := hs
      exact h.deal hd
  | visit keys =>
      simp only [step, Option.ite_none_right_eq_some, Option.some.injEq] at hs
      obtain ⟨hr, rfl⟩ := hs
      exact h.visit hr
  | drop keys =>
      obtain rfl := Option.some.inj hs
      exact h.drop

theorem inv_of_reachable (h : (machine κ).Reachable s) : s.Inv := by
  apply h.invariant
  · intro s hs
    obtain ⟨hheld, hlog⟩ := hs
    constructor <;> simp [hheld, hlog]
  · exact fun _ _ _ ih _ hs => inv_step ih hs

/-- **No number is visited twice.** -/
theorem log_nodup (h : (machine κ).Reachable s) : s.log.Nodup := (inv_of_reachable h).nodup

end Walk
