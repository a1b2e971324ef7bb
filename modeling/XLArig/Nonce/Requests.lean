import XLArig.Nonce.Next

/-!
# XLArig.Nonce.Requests

Calls of `Nonce::next` one after the other, as the loops over the lanes of a
worker make them.

The reserve count of a CPU worker is a power of two that divides 2³², and its
masks end where a window ends.  So a counter that starts at 0 stands at the start
of a window at all times, no window is ever burnt, and a call is granted exactly
the window it finds if that one is inside the mask (`request_aligned`).
-/

namespace XLArig.Nonce

variable {σ : Nonce} {index : Fin 2} {reserveCount : UInt32} {mask : UInt64} {k : Nat}

/-! ## Loops of calls -/

/-- `n` calls of `next` in a row, and what they return. -/
def requests (index : Fin 2) (reserveCount : UInt32) (mask : UInt64) :
    (n : Nat) → Nonce → Nonce × List (Option UInt64)
  | 0, σ => (σ, [])
  | n + 1, σ =>
      let x := requests index reserveCount mask n σ
      let y := x.1.request index reserveCount mask
      (y.1, x.2 ++ [y.2])

@[simp] theorem length_requests (n : Nat) :
    (requests index reserveCount mask n σ).2.length = n := by
  induction n with
  | zero => rfl
  | succ n ih => simp [requests, ih]

/-- The calls of `next` until the first that returns `false`, at most `n`. -/
def requestsWhile (index : Fin 2) (reserveCount : UInt32) (mask : UInt64) :
    (n : Nat) → Nonce → Nonce × List UInt64 × Bool
  | 0, σ => (σ, [], true)
  | n + 1, σ =>
      match requestsWhile index reserveCount mask n σ with
      | (σ, cs, false) => (σ, cs, false)
      | (σ, cs, true) =>
          match σ.request index reserveCount mask with
          | (σ, some c) => (σ, cs ++ [c], true)
          | (σ, none) => (σ, cs, false)

theorem length_requestsWhile (index : Fin 2) (reserveCount : UInt32) (mask : UInt64) (n : Nat)
    (σ : Nonce) :
    (requestsWhile index reserveCount mask n σ).2.1.length ≤ n ∧
      ((requestsWhile index reserveCount mask n σ).2.2 = true →
        (requestsWhile index reserveCount mask n σ).2.1.length = n) := by
  induction n with
  | zero => exact ⟨Nat.le_refl 0, fun _ => rfl⟩
  | succ n ih =>
      simp only [requestsWhile]
      generalize requestsWhile index reserveCount mask n σ = x at ih ⊢
      obtain ⟨σ₁, cs, ok⟩ := x
      cases ok with
      | false => exact ⟨Nat.le_succ_of_le ih.1, fun h => absurd h Bool.false_ne_true⟩
      | true =>
          have hlen : cs.length = n := ih.2 rfl
          dsimp only
          generalize σ₁.request index reserveCount mask = y
          obtain ⟨σ₂, _ | c⟩ := y
          · exact ⟨Nat.le_succ_of_le ih.1, fun h => absurd h Bool.false_ne_true⟩
          · simp [hlen]

/-! ## What calls leave alone -/

/-- Calls of `next` write the counters and the pause flag only. -/
structure Keeps (σ σ' : Nonce) : Prop where
  sequence : σ'.sequence = σ.sequence
  period : σ'.period = σ.period

theorem Keeps.refl (σ : Nonce) : σ.Keeps σ := ⟨rfl, rfl⟩

theorem Keeps.trans {σ₁ σ₂ : Nonce} (h : σ.Keeps σ₁) (h' : σ₁.Keeps σ₂) : σ.Keeps σ₂ :=
  ⟨h'.sequence.trans h.sequence, h'.period.trans h.period⟩

theorem keeps_fetchAdd : σ.Keeps (σ.fetchAdd index reserveCount) := ⟨rfl, rfl⟩

theorem keeps_reserve (turns : Nat) (counter : UInt64) :
    σ.Keeps (reserve index reserveCount mask turns σ counter).1 := by
  induction turns generalizing σ counter with
  | zero => exact .refl σ
  | succ turns ih =>
      unfold reserve
      split
      · next p _ => cases p <;> exact ⟨rfl, rfl⟩
      · exact keeps_fetchAdd.trans (ih (σ.nonces index))
      · next p _ => cases p <;> exact ⟨rfl, rfl⟩

theorem keeps_request : σ.Keeps (σ.request index reserveCount mask).1 := by
  unfold request next
  dsimp only
  split
  · exact .refl σ
  · have hreserve : σ.Keeps (reserve index reserveCount (truncMask mask)
        ((truncMask mask).toNat / reserveCount.toNat + 1) (σ.fetchAdd index reserveCount)
        (σ.nonces index)).1 := keeps_fetchAdd.trans (keeps_reserve _ _)
    generalize reserve index reserveCount (truncMask mask) _ _ _ = x at hreserve ⊢
    obtain ⟨σ₁, _ | c⟩ := x <;> exact hreserve

theorem keeps_requests (n : Nat) : σ.Keeps (requests index reserveCount mask n σ).1 := by
  induction n with
  | zero => exact .refl σ
  | succ n ih => exact ih.trans keeps_request

theorem keeps_requestsWhile (n : Nat) :
    σ.Keeps (requestsWhile index reserveCount mask n σ).1 := by
  induction n with
  | zero => exact .refl σ
  | succ n ih =>
      simp only [requestsWhile]
      generalize requestsWhile index reserveCount mask n σ = x at ih ⊢
      obtain ⟨σ₁, cs, ok⟩ := x
      cases ok with
      | false => exact ih
      | true =>
          have hnext : σ.Keeps (σ₁.request index reserveCount mask).1 := ih.trans keeps_request
          dsimp only
          generalize σ₁.request index reserveCount mask = y at hnext ⊢
          obtain ⟨σ₂, _ | c⟩ := y <;> exact hnext

/-! ## Aligned counters -/

/-- The counter of `index` stands at the start of a window of `reserveCount`. -/
def Aligned (σ : Nonce) (index : Fin 2) (reserveCount : UInt32) : Prop :=
  reserveCount.toNat ∣ (σ.nonces index).toNat

/-- There is room for `n` windows of `reserveCount` under the mask. -/
def Room (σ : Nonce) (index : Fin 2) (reserveCount : UInt32) (mask : UInt64) (n : Nat) : Prop :=
  (σ.nonces index).toNat + n * reserveCount.toNat ≤ (truncMask mask).toNat + 1

instance (n : Nat) : Decidable (σ.Room index reserveCount mask n) :=
  inferInstanceAs (Decidable (_ ≤ _))

/-- What one call does at an aligned counter. -/
structure AlignedStep (σ : Nonce) (index : Fin 2) (reserveCount : UInt32) (mask : UInt64)
    (n : UInt64) (p : Bool) (r : Option UInt64) : Prop where
  le : (σ.nonces index).toNat ≤ n.toNat
  le_add : n.toNat ≤ (σ.nonces index).toNat + reserveCount.toNat
  aligned : reserveCount.toNat ∣ n.toNat
  reached : p = true → (σ.nonces index).toNat ≤ (truncMask mask).toNat ∧
    (truncMask mask).toNat < n.toNat
  result : (σ.Room index reserveCount mask 1 ∧
      n.toNat = (σ.nonces index).toNat + reserveCount.toNat ∧ r = some (σ.nonces index)) ∨
    (¬ σ.Room index reserveCount mask 1 ∧ r = none)

/-- The first turn of the loop decides: an aligned window is never burnt. -/
private theorem turn_aligned (hdvd : reserveCount.toNat ∣ 2 ^ 32)
    (ha : σ.Aligned index reserveCount) : turn mask (σ.nonces index) reserveCount ≠ .retry := by
  intro ht
  have h0 : reserveCount ≠ 0 := by
    rintro rfl
    exact absurd hdvd (by decide)
  obtain ⟨d, hd⟩ := hdvd
  obtain ⟨q, hq⟩ := (Nat.dvd_mod_iff ⟨d, hd⟩).mpr ha
  have hlt : (σ.nonces index).toNat % 2 ^ 32 < 2 ^ 32 := Nat.mod_lt _ (by decide)
  have hqd : q < d := by
    rw [hq, hd] at hlt
    exact Nat.lt_of_mul_lt_mul_left hlt
  have hfit : (σ.nonces index).toNat % 2 ^ 32 + reserveCount.toNat ≤ 2 ^ 32 := by
    rw [hq, hd, ← Nat.mul_succ]
    exact Nat.mul_le_mul_left _ hqd
  have hcases := turn_cases mask (σ.nonces index) h0
  rw [ht] at hcases
  simp only [reduceCtorEq, and_false, and_true, false_or, or_false] at hcases
  omega

/-- At an aligned counter a call is granted the window it finds, or nothing. -/
theorem request_aligned (mask : UInt64) (hdvd : reserveCount.toNat ∣ 2 ^ 32)
    (ha : σ.Aligned index reserveCount)
    (hwrap : (σ.nonces index).toNat + reserveCount.toNat < 2 ^ 64) :
    ∃ n p, (σ.request index reserveCount mask).1 = σ.advance index n p ∧
      AlignedStep σ index reserveCount mask n p (σ.request index reserveCount mask).2 := by
  have h0 : reserveCount ≠ 0 := by
    rintro rfl
    exact absurd hdvd (by decide)
  have hpos : 0 < reserveCount.toNat := Nat.pos_of_ne_zero fun h => h0 (UInt32.toNat_inj.mp h)
  unfold request next
  by_cases hnever : reserveCount = 0 ∨ truncMask mask < (reserveCount - 1).toUInt64
  · simp only [if_pos hnever]
    have hlt := UInt64.lt_iff_toNat_lt.mp (hnever.resolve_left h0)
    have hle : (1 : UInt32) ≤ reserveCount := UInt32.le_iff_toNat_le.mpr hpos
    rw [UInt32.toNat_toUInt64, UInt32.toNat_sub_of_le _ _ hle] at hlt
    have hone : (1 : UInt32).toNat = 1 := rfl
    refine ⟨σ.nonces index, false, by simp [advance], ?_⟩
    constructor
    · exact Nat.le_refl _
    · omega
    · exact ha
    · intro h; contradiction
    · refine .inr ⟨?_, rfl⟩
      unfold Room
      omega
  · simp only [if_neg hnever]
    have hfetch : (σ.nonces index + reserveCount.toUInt64).toNat =
        (σ.nonces index).toNat + reserveCount.toNat := by
      rw [UInt64.toNat_add, UInt32.toNat_toUInt64]
      exact Nat.mod_eq_of_lt hwrap
    have hadv : ∀ p, (if p then (σ.fetchAdd index reserveCount).pause true
        else σ.fetchAdd index reserveCount) =
          σ.advance index (σ.nonces index + reserveCount.toUInt64) p := by
      intro p
      cases p <;> simp [fetchAdd, advance, pause]
    have hal : reserveCount.toNat ∣ (σ.nonces index).toNat + reserveCount.toNat :=
      (Nat.dvd_add_self_right).mpr ha
    have hcases := turn_cases (truncMask mask) (σ.nonces index) h0
    simp only [reserve]
    cases ht : turn (truncMask mask) (σ.nonces index) reserveCount with
    | retry => exact absurd ht (turn_aligned hdvd ha)
    | refuse p =>
        have hpast := turn_refuse h0 ht
        refine ⟨_, p, hadv p, ?_⟩
        constructor
        · omega
        · omega
        · rw [hfetch]; exact hal
        · intro hp
          rw [ht] at hcases
          subst hp
          simp only [reduceCtorEq, and_false, Turn.refuse.injEq, Bool.true_eq_false, and_true,
            false_or, or_false] at hcases
          omega
        · refine .inr ⟨?_, rfl⟩
          unfold Room
          omega
    | grant p =>
        rw [ht] at hcases
        simp only [reduceCtorEq, and_false, false_or, Turn.grant.injEq] at hcases
        refine ⟨_, p, hadv p, ?_⟩
        constructor
        · omega
        · omega
        · rw [hfetch]; exact hal
        · intro hp
          subst hp
          simp only [Bool.true_eq_false, and_false, or_false, and_true] at hcases
          omega
        · refine .inl ⟨?_, hfetch, rfl⟩
          unfold Room
          omega

/-- `n` windows are granted one after the other when there is room for them. -/
theorem requests_aligned (hdvd : reserveCount.toNat ∣ 2 ^ 32) (ha : σ.Aligned index reserveCount)
    (hmask : IsMask mask) (n : Nat) (hroom : σ.Room index reserveCount mask n) :
    ∃ m p, (requests index reserveCount mask n σ).1 = σ.advance index m p ∧
      m.toNat = (σ.nonces index).toNat + n * reserveCount.toNat ∧
      (p = true → (truncMask mask).toNat < m.toNat) ∧
      ∀ i < n, ∃ c, (requests index reserveCount mask n σ).2[i]?.join = some c ∧
        c.toNat = (σ.nonces index).toNat + i * reserveCount.toNat := by
  obtain ⟨k, hk, hm⟩ := hmask.trunc
  have hpow : 2 ^ k ≤ 2 ^ 63 := Nat.pow_le_pow_right (by decide) hk
  induction n with
  | zero =>
      refine ⟨σ.nonces index, false, by simp [requests, advance], by simp, ?_, ?_⟩
      · intro h; contradiction
      · exact fun i hi => absurd hi (Nat.not_lt_zero i)
  | succ n ih =>
      have hmul : (n + 1) * reserveCount.toNat = n * reserveCount.toNat + reserveCount.toNat :=
        Nat.succ_mul _ _
      have hroom' : σ.Room index reserveCount mask n := by
        unfold Room at hroom ⊢
        omega
      obtain ⟨m, p, hfst, hmn, hreach, hres⟩ := ih hroom'
      let σ' := σ.advance index m p
      have hcount : (σ'.nonces index).toNat = (σ.nonces index).toNat + n * reserveCount.toNat := by
        simp only [σ', advance_nonces, hmn]
      have ha' : σ'.Aligned index reserveCount := by
        unfold Aligned
        rw [hcount]
        exact Nat.dvd_add ha (Nat.dvd_mul_left _ _)
      have hroom₁ : σ'.Room index reserveCount mask 1 := by
        unfold Room at hroom ⊢
        rw [hcount]
        omega
      have hwrap : (σ'.nonces index).toNat + reserveCount.toNat < 2 ^ 64 := by
        unfold Room at hroom
        rw [hcount]
        omega
      obtain ⟨m', p', hfst', hstep⟩ := request_aligned mask hdvd ha' hwrap
      obtain ⟨hcase, hm', hr⟩ := hstep.result.resolve_right fun h => h.1 hroom₁
      simp only [requests, hfst]
      refine ⟨m', p || p', ?_, ?_, ?_, ?_⟩
      · rw [hfst']
        simp [σ', advance, Bool.or_assoc]
      · omega
      · intro hp
        cases p with
        | true =>
            have := hreach rfl
            omega
        | false => exact (hstep.reached (by simpa using hp)).2
      · intro i hi
        by_cases hin : i = n
        · subst hin
          refine ⟨σ'.nonces index, ?_, hcount⟩
          rw [List.getElem?_append_right (by simp)]
          simpa [σ'] using hr
        · obtain ⟨c, hc, hci⟩ := hres i (by omega)
          refine ⟨c, ?_, hci⟩
          rw [List.getElem?_append_left (by simp; omega)]
          exact hc

/-- What a loop of calls does at an aligned counter when it ends at the first
refusal. -/
structure AlignedRun (σ : Nonce) (index : Fin 2) (reserveCount : UInt32) (mask : UInt64) (n : Nat)
    (m : UInt64) (p : Bool) (cs : List UInt64) (ok : Bool) : Prop where
  le_add : m.toNat ≤ (σ.nonces index).toNat + n * reserveCount.toNat
  aligned : reserveCount.toNat ∣ m.toNat
  reached : p = true → (truncMask mask).toNat < m.toNat
  add_le : (σ.nonces index).toNat + cs.length * reserveCount.toNat ≤ m.toNat
  room : cs ≠ [] → σ.Room index reserveCount mask cs.length
  length_le : cs.length ≤ n
  all : ok = true → cs.length = n
  refused : ok = false → ¬ σ.Room index reserveCount mask n
  windows : ∀ i < cs.length, ∃ c, cs[i]? = some c ∧
    c.toNat = (σ.nonces index).toNat + i * reserveCount.toNat

theorem requestsWhile_aligned (mask : UInt64) (hdvd : reserveCount.toNat ∣ 2 ^ 32)
    (ha : σ.Aligned index reserveCount) (n : Nat)
    (hwrap : (σ.nonces index).toNat + n * reserveCount.toNat < 2 ^ 64) :
    ∃ m p, (requestsWhile index reserveCount mask n σ).1 = σ.advance index m p ∧
      AlignedRun σ index reserveCount mask n m p
        (requestsWhile index reserveCount mask n σ).2.1
        (requestsWhile index reserveCount mask n σ).2.2 := by
  induction n with
  | zero =>
      refine ⟨σ.nonces index, false, by simp [requestsWhile, advance], ?_⟩
      constructor <;> simp [requestsWhile, Aligned] at ha ⊢
      exact ha
  | succ n ih =>
      have hmul : (n + 1) * reserveCount.toNat = n * reserveCount.toNat + reserveCount.toNat :=
        Nat.succ_mul _ _
      obtain ⟨m, p, hfst, hrun⟩ := ih (by omega)
      simp only [requestsWhile]
      generalize requestsWhile index reserveCount mask n σ = x at hfst hrun ⊢
      obtain ⟨σ', cs, ok⟩ := x
      simp only at hfst hrun ⊢
      have hle := hrun.le_add
      cases ok with
      | false =>
          have hlen := hrun.length_le
          refine ⟨m, p, hfst, ?_⟩
          exact
            { hrun with
              le_add := by omega
              length_le := Nat.le_succ_of_le hlen
              all := fun h => absurd h Bool.false_ne_true
              refused := fun _ hroom => hrun.refused rfl (by unfold Room at hroom ⊢; omega) }
      | true =>
          have hlen : cs.length = n := hrun.all rfl
          have hcount : (σ'.nonces index).toNat = m.toNat := by rw [hfst, advance_nonces]
          have hadd := hrun.add_le
          rw [hlen] at hadd
          have hm : m.toNat = (σ.nonces index).toNat + n * reserveCount.toNat := by omega
          have ha' : σ'.Aligned index reserveCount := by
            unfold Aligned
            rw [hcount]
            exact hrun.aligned
          obtain ⟨m', p', hfst', hstep⟩ := request_aligned mask hdvd ha' (by omega)
          have hle' := hstep.le
          have hle_add' := hstep.le_add
          have hadv : (σ'.request index reserveCount mask).1 = σ.advance index m' (p || p') := by
            rw [hfst', hfst]
            simp [advance, Bool.or_assoc]
          have hreach : (p || p') = true → (truncMask mask).toNat < m'.toNat := by
            intro hp
            cases p with
            | true =>
                have := hrun.reached rfl
                omega
            | false => exact (hstep.reached (by simpa using hp)).2
          dsimp only
          generalize σ'.request index reserveCount mask = y at hadv hstep ⊢
          obtain ⟨σ'', r⟩ := y
          have hresult := hstep.result
          cases r with
          | none =>
              dsimp only at hadv ⊢
              refine ⟨m', p || p', hadv, ?_⟩
              have hroom : ¬ σ'.Room index reserveCount mask 1 := by
                cases hresult with
                | inl h => exact absurd h.2.2 (by simp)
                | inr h => exact h.1
              exact
                { le_add := by omega
                  aligned := hstep.aligned
                  reached := hreach
                  add_le := by rw [hlen]; omega
                  room := hrun.room
                  length_le := Nat.le_succ_of_le hrun.length_le
                  all := fun h => absurd h Bool.false_ne_true
                  refused := fun _ h => hroom (by unfold Room at h ⊢; omega)
                  windows := hrun.windows }
          | some c =>
              dsimp only at hadv ⊢
              refine ⟨m', p || p', hadv, ?_⟩
              have hgrant : σ'.Room index reserveCount mask 1 ∧
                  m'.toNat = (σ'.nonces index).toNat + reserveCount.toNat ∧
                    some c = some (σ'.nonces index) := by
                cases hresult with
                | inl h => exact h
                | inr h => exact absurd h.2 (by simp)
              obtain ⟨hroom, hm', hc⟩ := hgrant
              constructor
              · omega
              · exact hstep.aligned
              · exact hreach
              · simp only [List.length_append, List.length_singleton, hlen]
                omega
              · intro _
                unfold Room at hroom ⊢
                simp only [List.length_append, List.length_singleton, hlen]
                omega
              · simp [hlen]
              · simp [hlen]
              · simp
              · intro i hi
                by_cases hin : i = n
                · subst hin
                  refine ⟨c, ?_, ?_⟩
                  · rw [List.getElem?_append_right (Nat.le_of_eq hlen), hlen]
                    simp
                  · rw [Option.some.inj hc, hcount, hm]
                · simp only [List.length_append, List.length_singleton] at hi
                  obtain ⟨c', hc', hci⟩ := hrun.windows i (by omega)
                  refine ⟨c', ?_, hci⟩
                  rw [List.getElem?_append_left (by omega)]
                  exact hc'

/-! ## Windows of a loop -/

/-- At most `n` calls led from `σ` to `σ'` and granted the windows at `cs`, in this
order. -/
structure Drawn (index : Fin 2) (reserveCount : UInt32) (mask : UInt64) (n : Nat)
    (σ σ' : Nonce) (cs : List UInt64) : Prop where
  advance : ∃ m p, σ' = σ.advance index m p ∧ (p = true →
    (σ.nonces index).toNat ≤ (truncMask mask).toNat ∧ (truncMask mask).toNat < m.toNat)
  le : (σ.nonces index).toNat ≤ (σ'.nonces index).toNat
  le_add : (σ'.nonces index).toNat ≤ (σ.nonces index).toNat + n * reserveCount.toNat
  aligned : σ'.Aligned index reserveCount
  inside : ∀ c ∈ cs, (σ.nonces index).toNat ≤ c.toNat ∧
    c.toNat + reserveCount.toNat ≤ (σ'.nonces index).toNat ∧
    c.toNat + reserveCount.toNat ≤ (truncMask mask).toNat + 1
  apart : cs.Pairwise fun c d => c.toNat + reserveCount.toNat ≤ d.toNat

variable {σ' : Nonce} {cs : List UInt64} {n : Nat}

theorem Drawn.refl (ha : σ.Aligned index reserveCount) :
    Drawn index reserveCount mask 0 σ σ [] where
  advance := ⟨σ.nonces index, false, by simp [Nonce.advance], fun h => absurd h Bool.false_ne_true⟩
  le := Nat.le_refl _
  le_add := Nat.le_add_right _ _
  aligned := ha
  inside := fun _ h => absurd h List.not_mem_nil
  apart := .nil

theorem Drawn.sequence (h : Drawn index reserveCount mask n σ σ' cs) :
    σ'.sequence = σ.sequence := by
  obtain ⟨m, p, rfl, -⟩ := h.advance
  rfl

theorem Drawn.period (h : Drawn index reserveCount mask n σ σ' cs) : σ'.period = σ.period := by
  obtain ⟨m, p, rfl, -⟩ := h.advance
  rfl

/-- The other counter stays. -/
theorem Drawn.nonces_of_ne (h : Drawn index reserveCount mask n σ σ' cs) {i : Fin 2}
    (hi : i ≠ index) : σ'.nonces i = σ.nonces i := by
  obtain ⟨m, p, rfl, -⟩ := h.advance
  exact advance_nonces_of_ne hi m p

/-- A loop that raises the pause flag has passed the mask. -/
theorem Drawn.paused (h : Drawn index reserveCount mask n σ σ' cs) (hp : σ'.paused = true) :
    σ.paused = true ∨ ((σ.nonces index).toNat ≤ (truncMask mask).toNat ∧
      (truncMask mask).toNat < (σ'.nonces index).toNat) := by
  obtain ⟨m, p, rfl, hm⟩ := h.advance
  rw [advance_paused, Bool.or_eq_true] at hp
  rw [advance_nonces]
  exact hp.imp_right hm

/-- One more call. -/
theorem Drawn.request (h : Drawn index reserveCount mask n σ σ' cs)
    (hdvd : reserveCount.toNat ∣ 2 ^ 32)
    (hwrap : (σ.nonces index).toNat + (n + 1) * reserveCount.toNat < 2 ^ 64) :
    Drawn index reserveCount mask (n + 1) σ (σ'.request index reserveCount mask).1
      (cs ++ (σ'.request index reserveCount mask).2.toList) := by
  have hmul : (n + 1) * reserveCount.toNat = n * reserveCount.toNat + reserveCount.toNat :=
    Nat.succ_mul _ _
  have hle := h.le
  have hle_add := h.le_add
  obtain ⟨m', p', hfst, hstep⟩ := request_aligned mask hdvd h.aligned (by omega)
  have hle' := hstep.le
  have hle_add' := hstep.le_add
  have hm' : ((σ'.request index reserveCount mask).1.nonces index).toNat = m'.toNat := by
    rw [hfst, advance_nonces]
  constructor
  · obtain ⟨m, p, hσ', hp⟩ := h.advance
    refine ⟨m', p || p', ?_, ?_⟩
    · rw [hfst, hσ']
      simp [Nonce.advance, Bool.or_assoc]
    · intro hor
      rw [hσ', advance_nonces] at hle'
      cases p with
      | true => exact ⟨(hp rfl).1, (hp rfl).2.trans_le hle'⟩
      | false =>
          obtain ⟨hlow, hup⟩ := hstep.reached (by simpa using hor)
          exact ⟨hle.trans hlow, hup⟩
  · omega
  · omega
  · unfold Aligned
    rw [hm']
    exact hstep.aligned
  · intro c hc
    rw [hm']
    cases List.mem_append.mp hc with
    | inl hc =>
        obtain ⟨h1, h2, h3⟩ := h.inside c hc
        exact ⟨h1, h2.trans hle', h3⟩
    | inr hc =>
        rw [Option.mem_toList] at hc
        cases hstep.result with
        | inl hgrant =>
            obtain ⟨hroom, hcount, hr⟩ := hgrant
            obtain rfl : σ'.nonces index = c := Option.some.inj (hr.symm.trans hc)
            unfold Room at hroom
            omega
        | inr hnone => exact absurd (hnone.2.symm.trans hc) (by simp)
  · rw [List.pairwise_append]
    refine ⟨h.apart, ?_, ?_⟩
    · cases (σ'.request index reserveCount mask).2 with
      | none => exact .nil
      | some c => exact List.pairwise_singleton _ _
    · intro c hc d hd
      rw [Option.mem_toList] at hd
      cases hstep.result with
      | inl hgrant =>
          obtain rfl : σ'.nonces index = d := Option.some.inj (hgrant.2.2.symm.trans hd)
          exact (h.inside c hc).2.1
      | inr hnone => exact absurd (hnone.2.symm.trans hd) (by simp)

theorem requests_drawn (mask : UInt64) (hdvd : reserveCount.toNat ∣ 2 ^ 32)
    (ha : σ.Aligned index reserveCount) (n : Nat)
    (hwrap : (σ.nonces index).toNat + n * reserveCount.toNat < 2 ^ 64) :
    Drawn index reserveCount mask n σ (requests index reserveCount mask n σ).1
      (requests index reserveCount mask n σ).2.reduceOption := by
  induction n with
  | zero => exact .refl ha
  | succ n ih =>
      have hmul : (n + 1) * reserveCount.toNat = n * reserveCount.toNat + reserveCount.toNat :=
        Nat.succ_mul _ _
      have hnext := (ih (by omega)).request hdvd hwrap
      simp only [requests, List.reduceOption_append]
      generalize (requests index reserveCount mask n σ).1.request index reserveCount mask = y at hnext ⊢
      obtain ⟨σ'', _ | c⟩ := y <;> exact hnext

theorem Drawn.mono (h : Drawn index reserveCount mask n σ σ' cs) :
    Drawn index reserveCount mask (n + 1) σ σ' cs :=
  { h with
    le_add := by
      have := h.le_add
      rw [Nat.succ_mul]
      omega }

/-- Fewer calls than allowed. -/
theorem Drawn.mono_le {k : Nat} (h : Drawn index reserveCount mask k σ σ' cs) (hk : k ≤ n) :
    Drawn index reserveCount mask n σ σ' cs := by
  induction hk with
  | refl => exact h
  | step _ ih => exact ih.mono

theorem requestsWhile_drawn (mask : UInt64) (hdvd : reserveCount.toNat ∣ 2 ^ 32)
    (ha : σ.Aligned index reserveCount) (n : Nat)
    (hwrap : (σ.nonces index).toNat + n * reserveCount.toNat < 2 ^ 64) :
    Drawn index reserveCount mask n σ (requestsWhile index reserveCount mask n σ).1
      (requestsWhile index reserveCount mask n σ).2.1 := by
  induction n with
  | zero => exact .refl ha
  | succ n ih =>
      have hmul : (n + 1) * reserveCount.toNat = n * reserveCount.toNat + reserveCount.toNat :=
        Nat.succ_mul _ _
      have hlast := ih (by omega)
      simp only [requestsWhile]
      generalize requestsWhile index reserveCount mask n σ = x at hlast ⊢
      obtain ⟨σ₁, cs₁, ok⟩ := x
      cases ok with
      | false => exact hlast.mono
      | true =>
          have hnext := hlast.request hdvd hwrap
          dsimp only at hnext ⊢
          generalize σ₁.request index reserveCount mask = y at hnext ⊢
          obtain ⟨σ'', _ | c⟩ := y
          · simpa using hnext
          · exact hnext

end XLArig.Nonce
