import XLArig.Nonce.Next

/-!
# XLArig.Nonce.Interleaving

Any number of workers call `Nonce::next` on one index at the same time.  Each
`fetch_add` is one step; what a call decides about the window it fetched is
local to its worker and comes in the step that fetches again or returns.

`refines` maps the calls to the dispenser of `XLArig.Window`: a fetch draws the
window at the counter, a retry or a refusal drops it, a grant keeps it.
-/

namespace XLArig.Nonce

variable {ι : Type*} [DecidableEq ι]

/-- A call of `next` whose last `fetch_add` returned `counter`. -/
structure Call where
  mem : Memory
  nonce : Nat
  reserveCount : UInt32
  counter : UInt64

/-- The window a call looks at. -/
def Call.window (c : Call) : Window := ⟨c.counter.toNat, c.reserveCount.toNat⟩

/-- A call that returned `true`: its window, and the memory around its write to
the nonce. -/
structure Grant where
  window : Window
  nonce : Nat
  before : Memory
  after : Memory

/-- The atomics, the call each worker is in, the calls that returned `true`
since the counter was reset, and how many nonces the counter was asked for: a
call that retries asks again. -/
structure Calls (ι : Type*) where
  atomics : Nonce
  calls : ι → Option Call
  granted : List Grant
  requested : Nat

/-- Worker `w` calls `next`, or decides about the window it has fetched. -/
inductive Event (ι : Type*)
  | call (w : ι) (mem : Memory) (nonce : Nat) (reserveCount : UInt32)
  | turn (w : ι)

namespace Calls

/-- The `fetch_add` of worker `w`. -/
def fetch (s : Calls ι) (index : Fin 2) (w : ι) (mem : Memory) (nonce : Nat)
    (reserveCount : UInt32) : Calls ι :=
  { s with
    atomics := s.atomics.fetchAdd index reserveCount
    calls := Function.update s.calls w (some ⟨mem, nonce, reserveCount, s.atomics.nonces index⟩)
    requested := s.requested + reserveCount.toNat }

/-- Worker `w` returns from `next`, after `pause(true)` if `p`. -/
def done (s : Calls ι) (w : ι) (p : Bool) : Calls ι :=
  { s with
    atomics := if p then s.atomics.pause true else s.atomics
    calls := Function.update s.calls w none }

/-- What the grant of `c` writes. -/
def grant (mask : UInt64) (c : Call) : Grant where
  window := c.window
  nonce := c.nonce
  before := c.mem
  after := writeNonce c.mem c.nonce (truncMask mask) c.counter

def step (index : Fin 2) (mask : UInt64) (s : Calls ι) : Event ι → Option (Calls ι)
  | .call w mem nonce reserveCount =>
      match s.calls w with
      | some _ => none
      | none =>
          if reserveCount = 0 ∨ truncMask mask < (reserveCount - 1).toUInt64 then some s
          else some (s.fetch index w mem nonce reserveCount)
  | .turn w =>
      match s.calls w with
      | none => none
      | some c =>
          match Nonce.turn (truncMask mask) c.counter c.reserveCount with
          | .refuse p => some (s.done w p)
          | .retry => some (s.fetch index w c.mem c.nonce c.reserveCount)
          | .grant p => some { s.done w p with granted := grant mask c :: s.granted }

/-- The calls between two resets of the counter: it starts at 0 with no call in
progress. -/
def machine (ι : Type*) [DecidableEq ι] (index : Fin 2) (mask : UInt64) :
    Machine (Calls ι) (Event ι) where
  init s := s.atomics.nonces index = 0 ∧ s.calls = (fun _ => none) ∧ s.granted = [] ∧
    s.requested = 0
  step := step index mask

variable {s s' : Calls ι} {index : Fin 2} {mask : UInt64} {e : Event ι} {k : Nat}

/-- What a step can do, with the decision of the turn as arithmetic. -/
inductive Stepped (index : Fin 2) (mask : UInt64) (s : Calls ι) : Calls ι → Prop
  | refused : Stepped index mask s s
  | fetched (w : ι) (mem : Memory) (nonce : Nat) (reserveCount : UInt32) :
      reserveCount ≠ 0 → Stepped index mask s (s.fetch index w mem nonce reserveCount)
  | dropped (w : ι) (p : Bool) : Stepped index mask s (s.done w p)
  | kept (w : ι) (c : Call) (p : Bool) :
      s.calls w = some c → Nonce.turn (truncMask mask) c.counter c.reserveCount = .grant p →
      Stepped index mask s { s.done w p with granted := grant mask c :: s.granted }

/-- Every call in progress asked for at least one nonce. -/
def Positive (s : Calls ι) : Prop := ∀ w c, s.calls w = some c → c.reserveCount ≠ 0

theorem stepped (hpos : s.Positive) (h : step index mask s e = some s') :
    Stepped index mask s s' := by
  cases e with
  | call w mem nonce reserveCount =>
      simp only [step] at h
      cases hw : s.calls w with
      | some c => simp only [hw] at h; contradiction
      | none =>
          simp only [hw] at h
          by_cases hnever : reserveCount = 0 ∨ truncMask mask < (reserveCount - 1).toUInt64
          · rw [if_pos hnever] at h
            obtain rfl := Option.some.inj h
            exact .refused
          · rw [if_neg hnever] at h
            obtain rfl := Option.some.inj h
            exact .fetched w mem nonce reserveCount (not_or.mp hnever).1
  | turn w =>
      simp only [step] at h
      cases hw : s.calls w with
      | none => simp only [hw] at h; contradiction
      | some c =>
          simp only [hw] at h
          cases ht : Nonce.turn (truncMask mask) c.counter c.reserveCount with
          | refuse p =>
              simp only [ht] at h
              obtain rfl := Option.some.inj h
              exact .dropped w p
          | retry =>
              simp only [ht] at h
              obtain rfl := Option.some.inj h
              exact .fetched w c.mem c.nonce c.reserveCount (hpos w c hw)
          | grant p =>
              simp only [ht] at h
              obtain rfl := Option.some.inj h
              exact .kept w c p hw ht

/-! ## One grant -/

/-- `next` granted the window of `g` under `mask`. -/
def Granted (mask : UInt64) (g : Grant) : Prop :=
  ∃ (c : Call) (p : Bool), g = grant mask c ∧ c.reserveCount ≠ 0 ∧
    Nonce.turn (truncMask mask) c.counter c.reserveCount = .grant p

/-- A granted window is inside the mask and crosses no multiple of 2³². -/
theorem Granted.window {g : Grant} (hk : k ≤ 64) (h : Granted (lowMask k) g) :
    g.window.stop ≤ (truncMask (lowMask k)).toNat + 1 ∧ g.window.Within (2 ^ 32) := by
  obtain ⟨c, p, rfl, hrc, ht⟩ := h
  obtain ⟨hle, hwithin, -⟩ := turn_grant hrc (toNat_truncMask (toNat_lowMask hk)) ht
  exact ⟨hle, hwithin⟩

/-- The write puts the first nonce of the window below the fixed bits. -/
theorem Granted.toNat_read64 {g : Grant} (hk : k ≤ 64) (h : Granted (lowMask k) g) :
    (g.after.read64 g.nonce).toNat =
      (g.before.read64 g.nonce).toNat / 2 ^ min k 63 * 2 ^ min k 63 + g.window.start ∧
    g.window.start < 2 ^ min k 63 := by
  have hm := toNat_truncMask (toNat_lowMask hk)
  have hpos : 0 < 2 ^ min k 63 := Nat.two_pow_pos _
  obtain ⟨c, p, rfl, hrc, ht⟩ := h
  obtain ⟨hle, -, -⟩ := turn_grant hrc hm ht
  have hrc' : 0 < c.reserveCount.toNat := Nat.pos_of_ne_zero fun h => hrc (UInt32.toNat_inj.mp h)
  have hc : c.counter.toNat ≤ (truncMask (lowMask k)).toNat := by omega
  constructor
  · exact toNat_read64_writeNonce hm (Nat.min_le_right _ _) hc
  · show c.counter.toNat < 2 ^ min k 63
    omega

/-- The bits outside the mask are those that were there. -/
theorem Granted.fixed_bits {g : Grant} (hk : k ≤ 64) (h : Granted (lowMask k) g) :
    g.after.read64 g.nonce &&& ~~~lowMask k = g.before.read64 g.nonce &&& ~~~lowMask k := by
  obtain ⟨hread, hlt⟩ := h.toNat_read64 hk
  apply UInt64.toNat_inj.mp
  rw [toNat_and_not_mask (toNat_lowMask hk) hk, toNat_and_not_mask (toNat_lowMask hk) hk, hread]
  congr 1
  rcases Nat.lt_or_ge k 64 with hlt64 | hge
  · rw [Nat.min_eq_left (by omega)] at hlt ⊢
    rw [Nat.mul_comm, Nat.mul_add_div (Nat.two_pow_pos k), Nat.div_eq_of_lt hlt, Nat.add_zero]
  · obtain rfl : k = 64 := by omega
    rw [← hread, Nat.div_eq_of_lt (UInt64.toNat_lt _), Nat.div_eq_of_lt (UInt64.toNat_lt _)]

/-- The bits of the mask that `next` uses hold the first nonce of the window. -/
theorem Granted.nonce_bits {g : Grant} (hk : k ≤ 64) (h : Granted (lowMask k) g) :
    (g.after.read64 g.nonce &&& truncMask (lowMask k)).toNat = g.window.start := by
  obtain ⟨hread, hlt⟩ := h.toNat_read64 hk
  rw [UInt64.toNat_and, toNat_truncMask (toNat_lowMask hk), Nat.and_two_pow_sub_one_eq_mod, hread,
    Nat.mul_comm, Nat.mul_add_mod, Nat.mod_eq_of_lt hlt]

/-- Only the field is written: 4 bytes, or 8 for a longer mask. -/
theorem Granted.frame {g : Grant} {i : Nat} (hk : k ≤ 64) (h : Granted (lowMask k) g)
    (hi : i < g.nonce ∨ g.nonce + (if k ≤ 32 then 4 else 8) ≤ i) : g.after i = g.before i := by
  have hm := toNat_truncMask (toNat_lowMask hk)
  obtain ⟨c, p, rfl, -, -⟩ := h
  apply writeNonce_frame
  by_cases hk32 : k ≤ 32
  · have hpow : 2 ^ min k 63 ≤ 2 ^ 32 :=
      Nat.pow_le_pow_right (by decide) (Nat.le_trans (Nat.min_le_left _ _) hk32)
    have hpos : 0 < 2 ^ min k 63 := Nat.two_pow_pos _
    rw [if_pos hk32] at hi
    simp only [grant] at hi
    omega
  · rw [if_neg hk32] at hi
    simp only [grant] at hi
    omega

/-! ## The calls refine the dispenser -/

/-- The dispenser the calls implement. -/
def toDispenser (s : Calls ι) : Dispenser ι where
  next := s.requested
  drawn := fun w => (s.calls w).map Call.window
  kept := s.granted.map Grant.window

/-- The counter is the number of nonces it was asked for, and grants were granted. -/
structure Inv (index : Fin 2) (mask : UInt64) (s : Calls ι) : Prop where
  counter : (s.atomics.nonces index).toNat = s.requested
  positive : s.Positive
  granted : ∀ g ∈ s.granted, Granted mask g

theorem done_nonces (w : ι) (p : Bool) : (s.done w p).atomics.nonces = s.atomics.nonces := by
  cases p <;> rfl

/-- The calls a return leaves in progress. -/
theorem positive_done (h : s.Positive) (w : ι) (p : Bool) : (s.done w p).Positive := by
  intro v c hc
  by_cases hv : v = w
  · subst hv
    simp [done] at hc
  · simp only [done, Function.update_of_ne hv] at hc
    exact h v c hc

theorem requested_le (h : step index mask s e = some s') : s.requested ≤ s'.requested := by
  simp only [step] at h
  grind [fetch, done]

theorem inv_step (hinv : s.Inv index mask) (hreq : s'.requested < 2 ^ 64)
    (h : step index mask s e = some s') : s'.Inv index mask := by
  cases stepped hinv.positive h with
  | refused => exact hinv
  | fetched w mem nonce reserveCount hrc =>
      constructor
      · have hcount := hinv.counter
        simp only [fetch] at hreq
        simp only [fetch, fetchAdd, Function.update_self, UInt64.toNat_add, UInt32.toNat_toUInt64,
          hcount]
        exact Nat.mod_eq_of_lt hreq
      · intro v c hc
        by_cases hv : v = w
        · subst hv
          simp only [fetch, Function.update_self, Option.some.injEq] at hc
          subst hc
          exact hrc
        · simp only [fetch, Function.update_of_ne hv] at hc
          exact hinv.positive v c hc
      · exact hinv.granted
  | dropped w p =>
      constructor
      · rw [done_nonces]
        exact hinv.counter
      · exact positive_done hinv.positive w p
      · exact hinv.granted
  | kept w c p hw ht =>
      constructor
      · show ((s.done w p).atomics.nonces index).toNat = s.requested
        rw [done_nonces]
        exact hinv.counter
      · exact positive_done hinv.positive w p
      · exact List.forall_mem_cons.mpr ⟨⟨c, p, rfl, hinv.positive w c hw, ht⟩, hinv.granted⟩

theorem inv_of_init (h : (machine ι index mask).init s) : s.Inv index mask := by
  obtain ⟨hn, hc, hg, hr⟩ := h
  constructor
  · rw [hn, hr]
    rfl
  · intro w c hw
    rw [hc] at hw
    contradiction
  · rw [hg]
    exact fun _ h => absurd h List.not_mem_nil

/-- Steps taken while the counter has not wrapped around. -/
abbrev Unwrapped (index : Fin 2) (mask : UInt64) (s : Calls ι) (e : Event ι) : Prop :=
  ∀ s', step index mask s e = some s' → s'.requested < 2 ^ 64

theorem inv_of_reachable (h : (machine ι index mask).ReachableIf (Unwrapped index mask) s) :
    s.Inv index mask :=
  h.invariant (fun _ h0 => inv_of_init h0) fun _ _ _ hinv hg hs => inv_step hinv (hg _ hs) hs

private theorem toDispenser_done (w : ι) (p : Bool) :
    (s.done w p).toDispenser =
      { s.toDispenser with drawn := Function.update s.toDispenser.drawn w none } := by
  simp only [toDispenser, done, Dispenser.mk.injEq, true_and, and_true]
  exact (Function.comp_update (Option.map Call.window) s.calls w none)

theorem refines : Machine.Refines (machine ι index mask) (Unwrapped index mask)
    (Dispenser.machine ι) toDispenser := by
  constructor
  · intro s h
    obtain ⟨-, hc, hg, hr⟩ := h
    simp [Dispenser.machine, toDispenser, hc, hg, hr]
  · intro s e s' hreach hguard h
    have hinv := inv_of_reachable hreach
    cases stepped hinv.positive h with
    | refused => exact ⟨[], rfl⟩
    | fetched w mem nonce reserveCount =>
        refine ⟨[.draw w reserveCount.toNat], ?_⟩
        have hd := Function.comp_update (Option.map Call.window) s.calls w
          (some ⟨mem, nonce, reserveCount, s.atomics.nonces index⟩)
        simp only [Option.map_some, Call.window, hinv.counter] at hd
        simp only [Machine.run, Dispenser.machine, Dispenser.step, Option.bind_some,
          Option.some.injEq, toDispenser, fetch, Dispenser.mk.injEq, true_and, and_true]
        exact hd.symm
    | dropped w p =>
        refine ⟨[.drop w], ?_⟩
        rw [toDispenser_done]
        rfl
    | kept w c p hw ht =>
        refine ⟨[.keep w], ?_⟩
        have hdrawn : s.toDispenser.drawn w = some c.window := by simp [toDispenser, hw]
        have hdone := toDispenser_done (s := s) w p
        simp only [Machine.run, Dispenser.machine, Dispenser.step, hdrawn, Option.bind_some,
          Option.some.injEq]
        simp only [toDispenser, Dispenser.mk.injEq] at hdone ⊢
        exact ⟨hdone.1.symm, hdone.2.1.symm, rfl⟩

/-- **No nonce is granted twice.**  Between two resets of a counter, with fewer
than 2⁶⁴ nonces requested, the windows granted to any number of workers are
disjoint, inside the mask and inside one block of 2³² nonces; the write of the
granted nonce keeps the bits outside the mask and all bytes outside the field. -/
theorem granted_once (hk : k ≤ 64) (h : (machine ι index (lowMask k)).Reachable s)
    (hreq : s.requested < 2 ^ 64) :
    s.granted.Pairwise (fun g g' => Disjoint g.window.toSet g'.window.toSet) ∧
      ∀ g ∈ s.granted,
        g.window.toSet ⊆ Set.Icc 0 (lowMask k &&& 0x7FFFFFFFFFFFFFFF).toNat ∧
        (∀ q, ¬ (g.window.start < q * 2 ^ 32 ∧ q * 2 ^ 32 < g.window.stop)) ∧
        g.after.read64 g.nonce &&& ~~~lowMask k = g.before.read64 g.nonce &&& ~~~lowMask k ∧
        (g.after.read64 g.nonce &&& truncMask (lowMask k)).toNat = g.window.start ∧
        ∀ i, i < g.nonce ∨ g.nonce + (if k ≤ 32 then 4 else 8) ≤ i → g.after i = g.before i := by
  have hreach : (machine ι index (lowMask k)).ReachableIf (Unwrapped index (lowMask k)) s :=
    h.guarded hreq fun _ _ _ hs hlt => Nat.lt_of_le_of_lt (requested_le hs) hlt
  have hinv := inv_of_reachable hreach
  have hkept := Dispenser.kept_pairwise (refines.reachable hreach)
  constructor
  · exact (List.pairwise_map.mp hkept).imp Window.Apart.disjoint
  · intro g hg
    have hgrant := hinv.granted g hg
    obtain ⟨hstop, hwithin⟩ := hgrant.window hk
    refine ⟨?_, ?_, hgrant.fixed_bits hk, hgrant.nonce_bits hk, fun i hi => hgrant.frame hk hi⟩
    · intro n hn
      have hn' : n < g.window.stop := hn.2
      show 0 ≤ n ∧ n ≤ (truncMask (lowMask k)).toNat
      omega
    · intro q hq
      have hmod := Nat.mod_add_div g.window.start (2 ^ 32)
      simp only [Window.Within, Window.stop] at hwithin hq
      have hqle : q ≤ g.window.start / 2 ^ 32 := by omega
      omega

/-- Two workers whose fetches cross: the second one's window ends the 24-bit mask. -/
theorem granted_once_two : ∃ s : Calls (Fin 2), s.granted.length = 2 ∧
    s.granted.Pairwise (fun g g' => Disjoint g.window.toSet g'.window.toSet) := by
  have hrun : ((machine (Fin 2) 0 (lowMask 24)).run ⟨init, fun _ => none, [], 0⟩
      [.call 0 (fun _ => 0xAA) 39 32768, .call 1 (fun _ => 0xAA) 39 16744448, .turn 1, .turn 0]).any
        (fun s => decide (s.granted.length = 2 ∧ s.requested < 2 ^ 64)) = true := by decide
  have hinit : (machine (Fin 2) 0 (lowMask 24)).init ⟨init, fun _ => none, [], 0⟩ :=
    ⟨rfl, rfl, rfl, rfl⟩
  obtain ⟨s, hs, hp⟩ := Machine.Reachable.exists_of_run hinit hrun
  obtain ⟨hlen, hreq⟩ := of_decide_eq_true hp
  exact ⟨s, hlen, (granted_once (by decide) hs hreq).1⟩

/-! ## The sequential call -/

/-- The calls after worker `w` returned `r` from the call `c`. -/
def returned (s : Calls ι) (w : ι) (mask : UInt64) (c : Call) (requested : Nat) :
    Nonce × Option UInt64 → Calls ι
  | (σ, some counter) =>
      ⟨σ, Function.update s.calls w none, grant mask { c with counter } :: s.granted, requested⟩
  | (σ, none) => ⟨σ, Function.update s.calls w none, s.granted, requested⟩

theorem returned_fetch {w : ι} {c : Call} {n : Nat} {mem : Memory} {nonce : Nat}
    {reserveCount : UInt32} (x : Nonce × Option UInt64) :
    (s.fetch index w mem nonce reserveCount).returned w mask c n x =
      s.returned w mask c n x := by
  obtain ⟨σ, _ | counter⟩ := x <;> simp [returned, fetch, Function.update_idem]

/-- The loop of `next` is the turns of one worker with no other step between
them. -/
theorem run_reserve {w : ι} {c : Call} (turns : Nat) (hw : s.calls w = some c)
    (hpos : c.reserveCount ≠ 0) (hmask : (truncMask mask).toNat = 2 ^ k - 1) (hk : k ≤ 63)
    (hσ : (s.atomics.nonces index).toNat = c.counter.toNat + c.reserveCount.toNat)
    (hturns : (truncMask mask).toNat < c.counter.toNat + turns * c.reserveCount.toNat) :
    ∃ es n, (machine ι index mask).run s es =
      some (s.returned w mask c n
        (reserve index c.reserveCount (truncMask mask) turns s.atomics c.counter)) := by
  induction turns generalizing s c with
  | zero =>
      refine ⟨[.turn w], s.requested, ?_⟩
      have hlt : truncMask mask < c.counter := UInt64.lt_iff_toNat_lt.mpr (by omega)
      simp only [machine, Machine.run, step, hw, Nonce.turn, if_pos hlt, Option.bind_some]
      rfl
  | succ turns ih =>
      cases ht : Nonce.turn (truncMask mask) c.counter c.reserveCount with
      | refuse p =>
          refine ⟨[.turn w], s.requested, ?_⟩
          simp only [machine, Machine.run, step, hw, ht, Option.bind_some, reserve]
          rfl
      | grant p =>
          refine ⟨[.turn w], s.requested, ?_⟩
          simp only [machine, Machine.run, step, hw, ht, Option.bind_some, reserve]
          rfl
      | retry =>
          have hle := turn_retry hpos ht
          have hlt : c.reserveCount.toNat < 2 ^ 32 := c.reserveCount.toNat_lt
          have hpow : 2 ^ k ≤ 2 ^ 63 := Nat.pow_le_pow_right (by decide) hk
          let s' := s.fetch index w c.mem c.nonce c.reserveCount
          let c' : Call := { c with counter := s.atomics.nonces index }
          have hcall : s'.calls w = some c' := Function.update_self ..
          have hnext : (s'.atomics.nonces index).toNat =
              c'.counter.toNat + c'.reserveCount.toNat := by
            simp only [s', c', fetch, fetchAdd, Function.update_self, UInt64.toNat_add,
              UInt32.toNat_toUInt64]
            exact Nat.mod_eq_of_lt (by omega)
          have henough : (truncMask mask).toNat <
              c'.counter.toNat + turns * c'.reserveCount.toNat := by
            rw [Nat.succ_mul] at hturns
            simp only [c']
            omega
          obtain ⟨es, n, hrun⟩ := ih hcall hpos hnext henough
          refine ⟨.turn w :: es, n, ?_⟩
          simp only [returned_fetch, s'] at hrun
          rw [Machine.run]
          simp only [machine, step, hw, ht, Option.bind_some, reserve]
          exact hrun

/-- **A sequential call of `next` is one of the interleavings**: the same atomics
after it, and its grant if it returns `true`. -/
theorem run_next {w : ι} (hw : s.calls w = none) (hmask : IsMask mask) (mem : Memory)
    (nonce : Nat) (reserveCount : UInt32)
    (hwrap : (s.atomics.nonces index).toNat + reserveCount.toNat < 2 ^ 64) :
    ∃ es s', (machine ι index mask).run s es = some s' ∧ s'.calls = s.calls ∧
      s'.atomics = (next s.atomics index mem nonce reserveCount mask).1 ∧
      s'.granted = match (next s.atomics index mem nonce reserveCount mask).2.2 with
        | some counter => grant mask ⟨mem, nonce, reserveCount, counter⟩ :: s.granted
        | none => s.granted := by
  obtain ⟨k, hk, hm⟩ := hmask.trunc
  simp only [next]
  by_cases hnever : reserveCount = 0 ∨ truncMask mask < (reserveCount - 1).toUInt64
  · refine ⟨[.call w mem nonce reserveCount], s, ?_, rfl, ?_⟩
    · simp only [machine, Machine.run, step, hw, if_pos hnever, Option.bind_some]
    · simp only [if_pos hnever, and_self]
  · have hpos : 0 < reserveCount.toNat := Nat.pos_of_ne_zero fun h =>
      hnever (.inl (UInt32.toNat_inj.mp h))
    let c : Call := ⟨mem, nonce, reserveCount, s.atomics.nonces index⟩
    let s₁ := s.fetch index w mem nonce reserveCount
    have hcall : s₁.calls w = some c := Function.update_self ..
    have hfetch : (s₁.atomics.nonces index).toNat = c.counter.toNat + c.reserveCount.toNat := by
      simp only [s₁, c, fetch, fetchAdd, Function.update_self, UInt64.toNat_add,
        UInt32.toNat_toUInt64]
      exact Nat.mod_eq_of_lt hwrap
    have hturns : (truncMask mask).toNat < c.counter.toNat +
        ((truncMask mask).toNat / reserveCount.toNat + 1) * c.reserveCount.toNat := by
      have := Nat.lt_mul_div_succ (truncMask mask).toNat hpos
      rw [Nat.mul_comm] at this
      simp only [c]
      omega
    obtain ⟨es, n, hrun⟩ := run_reserve _ hcall (not_or.mp hnever).1 hm hk hfetch hturns
    rw [show s₁ = s.fetch index w mem nonce reserveCount from rfl, returned_fetch] at hrun
    refine ⟨.call w mem nonce reserveCount :: es, s.returned w mask c n
      (reserve index reserveCount (truncMask mask) ((truncMask mask).toNat / reserveCount.toNat + 1)
        (s.atomics.fetchAdd index reserveCount) (s.atomics.nonces index)), ?_, ?_⟩
    · rw [Machine.run]
      simp only [machine, step, hw, if_neg hnever, Option.bind_some]
      exact hrun
    · rw [if_neg hnever]
      generalize reserve index reserveCount (truncMask mask) _ _ _ = x
      have hcalls : Function.update s.calls w none = s.calls := by
        rw [← hw, Function.update_eq_self]
      obtain ⟨σ, _ | counter⟩ := x <;> simp [returned, hcalls, c]

end Calls

end XLArig.Nonce
