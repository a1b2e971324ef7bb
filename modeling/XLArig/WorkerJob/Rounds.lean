import XLArig.Walk
import XLArig.WorkerJob.Field

/-!
# XLArig.WorkerJob.Rounds

Workers with any numbers of lanes hash one job between two resets of its
counter: each picks the job up with `WorkerJob::add`, hashes what stands in its
lanes and goes on with `WorkerJob::nextRound` until that returns `false`.

`save` does not look at what `Nonce::next` returns.  A lane that was refused its
window keeps the nonce the pool sent, and every such lane is hashed with it.
Where each `save` finds room for all of its windows (`Picks`), the lanes walk
the windows of `XLArig.Walk` and no nonce is hashed twice.
-/

namespace XLArig.WorkerJob

open Nonce (requests requestsWhile)

variable [Features]

/-! ## The system -/

/-- Where a worker stands: it has not seen the job, is about to hash its lanes,
has hashed them, or was told that there are no more nonces. -/
inductive Phase
  | idle
  | ready
  | hashed
  | stopped
  deriving DecidableEq

/-- The atomics, the workers, and the nonces that stood in the lanes when these
were hashed, the newest first. -/
structure Rounds (ι : Type*) (N : ι → Nat) where
  nonce : Nonce
  worker : (w : ι) → WorkerJob (N w)
  phase : ι → Phase
  hashed : List UInt64

namespace Rounds

variable {ι : Type*} [DecidableEq ι] {N : ι → Nat}

/-- What worker `w` does. -/
inductive Event (ι : Type*)
  | add (w : ι)
  | hash (w : ι)
  | nextRound (w : ι)

/-- Worker `w` has called `Nonce` and is now `wj`. -/
def move (s : Rounds ι N) (w : ι) (σ : Nonce) (wj : WorkerJob (N w)) (phase : Phase) :
    Rounds ι N :=
  { s with
    nonce := σ
    worker := Function.update s.worker w wj
    phase := Function.update s.phase w phase }

/-- The nonces in the lanes of worker `w`. -/
def nonces (s : Rounds ι N) (w : ι) : List UInt64 :=
  (List.range (N w)).map (s.worker w).laneNonce

def step (job : Job) (s : Rounds ι N) : Event ι → Option (Rounds ι N)
  | .add w =>
      if s.phase w = .idle then
        match (s.worker w).add s.nonce job reserveCount .CPU with
        | (σ, wj, _) => some (s.move w σ wj .ready)
      else none
  | .hash w =>
      if s.phase w = .ready then
        some { s with
          phase := Function.update s.phase w .hashed
          hashed := s.nonces w ++ s.hashed }
      else none
  | .nextRound w =>
      if s.phase w = .hashed then
        match (s.worker w).nextRound s.nonce reserveCount 1 with
        | (σ, wj, _, true) => some (s.move w σ wj .ready)
        | (σ, wj, _, false) => some (s.move w σ wj .stopped)
      else none

/-- No worker has seen the job, and its counter was just reset. -/
structure Start (job : Job) (s : Rounds ι N) : Prop where
  counter : s.nonce.nonces job.index = 0
  idle : ∀ w, s.phase w = .idle
  fresh : ∀ w, (s.worker w).currentJob.isEqual job = false ∧ (s.worker w).returns job = false
  hashed : s.hashed = []

def machine (ι : Type*) [DecidableEq ι] (N : ι → Nat) (job : Job) :
    Machine (Rounds ι N) (Event ι) where
  init := Start job
  step := step job

/-- A worker that picks the job up finds room for the windows of all its lanes,
and the 64-bit counter does not wrap around. -/
def Picks (job : Job) (s : Rounds ι N) : Event ι → Prop
  | .add w => s.nonce.Room job.index reserveCount job.nonceMask (N w)
  | .hash _ => True
  | .nextRound w => (s.nonce.nonces job.index).toNat + N w * reserveCount.toNat < 2 ^ 64

instance (job : Job) (s : Rounds ι N) : (e : Event ι) → Decidable (Picks job s e)
  | .add _ => inferInstanceAs (Decidable (_ ≤ _))
  | .hash _ => inferInstanceAs (Decidable True)
  | .nextRound _ => inferInstanceAs (Decidable (_ < _))

end Rounds

/-! ## A worker on the job -/

/-- A worker on `job`: every lane stands `step` numbers into a window. -/
structure Holding {N : Nat} (job : Job) (w : WorkerJob N) : Prop where
  index : w.index = job.index
  nonceMask : w.nonceMask = job.nonceMask
  like : job.Like w.currentJob
  lanes : ∀ i < N, ∃ q, w.laneCount i = q * reserveCount.toNat + w.step ∧
    q * reserveCount.toNat + reserveCount.toNat ≤ job.space

/-- The window lane `i` walks. -/
def laneWindow {N : Nat} (w : WorkerJob N) (i : Nat) : Window :=
  ⟨w.laneCount i - w.step, reserveCount.toNat⟩

section Worker

variable {N : Nat} {job : Job} {w : WorkerJob N} {σ : Nonce} {i : Nat}

theorem Holding.fits (h : Holding job w) (hsize : job.Sized) :
    Nonce.FieldFits (Nonce.truncMask w.nonceMask) w.currentJob.nonceOffset w.currentJob.size := by
  rw [h.nonceMask, h.like.nonceOffset, h.like.size]
  exact hsize.fits

theorem Holding.laneCount_eq (h : Holding job w) (i : Nat) :
    w.laneCount i = job.count (w.lane i) := by
  rw [laneCount, h.like.count]

theorem Holding.laneNonce_mod (h : Holding job w) (i : Nat) :
    (w.laneNonce i).toNat % job.space = w.laneCount i := by
  rw [laneNonce, laneCount, Job.count, h.like.space]

/-- A lane that was granted `c` stands at `c`. -/
private theorem laneCount_of_put {w' : WorkerJob N} {blob : Memory} {c : UInt64}
    (hlike : job.Like w'.currentJob) (hc : c.toNat < job.space)
    (hlane : w'.lane i = Nonce.put blob job.nonceOffset job.nonceMask (some c)) :
    w'.laneCount i = c.toNat := by
  rw [laneCount, hlike.count, hlane]
  exact Job.count_writeNonce hc

/-- `n` windows from an aligned counter, with room for all of them. -/
private theorem window_of_room {index : Fin 2} {n c : Nat}
    (ha : σ.Aligned index reserveCount) (hroom : σ.Room index reserveCount job.nonceMask n)
    (hi : i < n) (hc : c = (σ.nonces index).toNat + i * reserveCount.toNat) :
    ∃ q, c = q * reserveCount.toNat + 0 ∧ q * reserveCount.toNat + reserveCount.toNat ≤ job.space := by
  obtain ⟨q, hq⟩ := ha
  have hle : i * reserveCount.toNat + reserveCount.toNat ≤ n * reserveCount.toNat := by
    rw [← Nat.succ_mul]
    exact Nat.mul_le_mul_right _ hi
  have hsum : c = (q + i) * reserveCount.toNat + 0 := by
    rw [hc, hq, Nat.add_mul, Nat.mul_comm, Nat.add_zero]
  refine ⟨q + i, hsum, ?_⟩
  unfold Nonce.Room at hroom
  unfold Job.space
  omega

/-- **The first pick-up of a job**, with room for all lanes: lane `i` gets the
`i`-th window from the counter. -/
theorem add_fresh (hfresh : w.currentJob.isEqual job = false ∧ w.returns job = false)
    (hsize : job.Sized) (ha : σ.Aligned job.index reserveCount)
    (hroom : σ.Room job.index reserveCount job.nonceMask N) :
    ∃ m p, (w.add σ job reserveCount .CPU).1 = σ.advance job.index m p ∧
      m.toNat = (σ.nonces job.index).toNat + N * reserveCount.toNat ∧
      Holding job (w.add σ job reserveCount .CPU).2.1 ∧
      (w.add σ job reserveCount .CPU).2.1.step = 0 ∧
      ∀ i < N, (w.add σ job reserveCount .CPU).2.1.laneCount i =
        (σ.nonces job.index).toNat + i * reserveCount.toNat := by
  obtain ⟨m, p, hfst, hm, -, hres⟩ :=
    Nonce.requests_aligned reserveCount_dvd ha job.nonceMask_isMask N hroom
  have hsaves : w.saves job = true := by simp only [saves, hfresh.1, hfresh.2]; rfl
  rw [add_saves hsaves]
  generalize hw₀ : ({ w with sequence := σ.sequence .CPU } : WorkerJob N) = w₀
  obtain ⟨mem, hload⟩ := save_load σ w₀ job reserveCount .CPU
  have hlike : job.Like (save σ w₀ job reserveCount .CPU).2.1.currentJob := by
    rw [hload, load_currentJob]
    exact ⟨_, job.blob, rfl⟩
  have hcount : ∀ i < N, (save σ w₀ job reserveCount .CPU).2.1.laneCount i =
      (σ.nonces job.index).toNat + i * reserveCount.toNat := by
    intro i hi
    obtain ⟨c, hc, hci⟩ := hres i hi
    have hlane' := save_lane σ w₀ reserveCount .CPU hsize hi
    rw [hc] at hlane'
    obtain ⟨q, hq, hspace⟩ := window_of_room (c := c.toNat) ha hroom hi hci
    have hpos := (show 0 < reserveCount.toNat by decide)
    rw [laneCount_of_put hlike (by omega) hlane', hci]
  have hstep : (save σ w₀ job reserveCount .CPU).2.1.step = 0 := by
    rw [hload, WorkerJob.step, load_round]
    rfl
  refine ⟨m, p, ?_, hm, ?_, hstep, hcount⟩
  · rw [save_fst, hfst]
  · constructor
    · rw [hload, load_index]
    · rw [hload, load_nonceMask]
    · exact hlike
    · intro i hi
      rw [hstep]
      exact window_of_room ha hroom hi (hcount i hi)

/-- A round that gets new windows for all lanes. -/
theorem nextRound_granted (h : Holding job w) (hsize : job.Sized)
    (ha : σ.Aligned job.index reserveCount) (hb : w.atBoundary reserveCount)
    (hwrap : (σ.nonces job.index).toNat + N * reserveCount.toNat < 2 ^ 64)
    (hok : (w.nextRound σ reserveCount 1).2.2.2 = true) :
    ∃ m p, (w.nextRound σ reserveCount 1).1 = σ.advance job.index m p ∧
      m.toNat = (σ.nonces job.index).toNat + N * reserveCount.toNat ∧
      Holding job (w.nextRound σ reserveCount 1).2.1 ∧
      (w.nextRound σ reserveCount 1).2.1.step = 0 ∧
      ∀ i < N, (w.nextRound σ reserveCount 1).2.1.laneCount i =
        (σ.nonces job.index).toNat + i * reserveCount.toNat := by
  have hsame : reserveCount * 1 = reserveCount := rfl
  obtain ⟨hσ, hcs, hsj, hround, hlane⟩ := nextRound_boundary σ 1 hb (h.fits hsize)
  rw [hsame, h.index, h.nonceMask] at hσ hcs hlane
  rw [h.like.nonceOffset] at hlane
  obtain ⟨m, p, hfst, hrun⟩ := Nonce.requestsWhile_aligned job.nonceMask reserveCount_dvd ha N hwrap
  rw [← hcs] at hrun hlane
  have hlen := hrun.all hok
  have hlike : job.Like (w.nextRound σ reserveCount 1).2.1.currentJob := by
    obtain ⟨b, hb'⟩ := hsj.currentJob
    obtain ⟨_, _, hj⟩ := h.like
    rw [hb', hj]
    exact ⟨_, _, rfl⟩
  have hstep : (w.nextRound σ reserveCount 1).2.1.step = 0 := step_boundary hround hb
  have hroom : ∀ i < N, σ.Room job.index reserveCount job.nonceMask N := by
    intro i hi
    rw [← hlen]
    apply hrun.room
    intro hnil
    rw [hnil] at hlen
    exact absurd hi (by simp only [List.length_nil] at hlen; omega)
  have hcount : ∀ i < N, (w.nextRound σ reserveCount 1).2.1.laneCount i =
      (σ.nonces job.index).toNat + i * reserveCount.toNat := by
    intro i hi
    obtain ⟨c, hc, hci⟩ := hrun.windows i (by omega)
    have hlane' := hlane i
    rw [hc] at hlane'
    obtain ⟨q, hq, hspace⟩ := window_of_room (c := c.toNat) ha (hroom i hi) hi hci
    have hpos : 0 < reserveCount.toNat := by decide
    rw [laneCount_of_put hlike (by omega) hlane', hci]
  have hm : m.toNat = (σ.nonces job.index).toNat + N * reserveCount.toNat := by
    have hle := hrun.le_add
    have hge := hrun.add_le
    rw [hlen] at hge
    omega
  refine ⟨m, p, by rw [hσ, hfst], hm, ?_, hstep, hcount⟩
  constructor
  · rw [hsj.index, h.index]
  · rw [hsj.nonceMask, h.nonceMask]
  · exact hlike
  · intro i hi
    rw [hstep]
    exact window_of_room ha (hroom i hi) hi (hcount i hi)

/-- A round that is refused a window moves the counter only. -/
theorem nextRound_refused (h : Holding job w) (hsize : job.Sized)
    (ha : σ.Aligned job.index reserveCount) (hb : w.atBoundary reserveCount)
    (hwrap : (σ.nonces job.index).toNat + N * reserveCount.toNat < 2 ^ 64) :
    ∃ m p, (w.nextRound σ reserveCount 1).1 = σ.advance job.index m p ∧
      (σ.nonces job.index).toNat ≤ m.toNat ∧ reserveCount.toNat ∣ m.toNat := by
  have hsame : reserveCount * 1 = reserveCount := rfl
  obtain ⟨hσ, -, -, -, -⟩ := nextRound_boundary σ 1 hb (h.fits hsize)
  rw [hsame, h.index, h.nonceMask] at hσ
  obtain ⟨m, p, hfst, hrun⟩ := Nonce.requestsWhile_aligned job.nonceMask reserveCount_dvd ha N hwrap
  exact ⟨m, p, by rw [hσ, hfst], (Nat.le_add_right _ _).trans hrun.add_le, hrun.aligned⟩

/-- A round inside the windows: every lane goes on to the next number. -/
theorem nextRound_walk (h : Holding job w) (hsize : job.Sized)
    (hb : ¬ w.atBoundary reserveCount) :
    (w.nextRound σ reserveCount 1).1 = σ ∧ (w.nextRound σ reserveCount 1).2.2.2 = true ∧
      Holding job (w.nextRound σ reserveCount 1).2.1 ∧
      (w.nextRound σ reserveCount 1).2.1.step = w.step + 1 ∧
      ∀ i < N, (w.nextRound σ reserveCount 1).2.1.laneCount i = w.laneCount i + 1 := by
  have hfit : w.currentJob.nonceOffset + 4 ≤ w.currentJob.size := by
    have := h.fits hsize
    unfold Nonce.FieldFits at this
    omega
  obtain ⟨hσ, hcs, hsj, hround, hlane⟩ := nextRound_inside σ 1 hb hfit
  have hlike : job.Like (w.nextRound σ reserveCount 1).2.1.currentJob := by
    obtain ⟨b, hb'⟩ := hsj.currentJob
    obtain ⟨_, _, hj⟩ := h.like
    rw [hb', hj]
    exact ⟨_, _, rfl⟩
  have hstep : (w.nextRound σ reserveCount 1).2.1.step = w.step + 1 := step_inside hround hb
  have hlt : w.step + 1 < reserveCount.toNat := by
    rw [← hstep]
    exact step_lt _
  have hcount : ∀ i < N, (w.nextRound σ reserveCount 1).2.1.laneCount i = w.laneCount i + 1 := by
    intro i hi
    obtain ⟨q, hq, hspace⟩ := h.lanes i hi
    rw [h.laneCount_eq] at hq
    -- the number before the last of its window cannot be the last of its block
    have h32 : job.count (w.lane i) % 2 ^ 32 + 1 < 2 ^ 32 := by
      rw [hq, toNat_reserveCount] at *
      omega
    rw [laneCount, hlike.count, hlane i hi, h.like.nonceOffset, h.laneCount_eq]
    exact (Job.count_step (by omega) h32).1
  refine ⟨hσ, by rw [hcs], ?_, hstep, hcount⟩
  constructor
  · rw [hsj.index, h.index]
  · rw [hsj.nonceMask, h.nonceMask]
  · exact hlike
  · intro i hi
    obtain ⟨q, hq, hspace⟩ := h.lanes i hi
    exact ⟨q, by rw [hcount i hi, hstep, hq, Nat.add_assoc], hspace⟩

end Worker

/-! ## The lanes walk their windows -/

/-- How many numbers a worker has hashed of the ones its round counter says. -/
def Phase.done : Phase → Option Nat
  | .idle => none
  | .ready => some 0
  | .hashed => some 1
  | .stopped => none

namespace Rounds

variable {ι : Type*} [DecidableEq ι] {N : ι → Nat} {job : Job} {s s' : Rounds ι N} {w : ι}

/-- The counter stands at a window; an idle worker is new to the job, and the
others that go on hold it. -/
structure Inv (job : Job) (s : Rounds ι N) : Prop where
  aligned : s.nonce.Aligned job.index reserveCount
  fresh : ∀ w, s.phase w = .idle →
    (s.worker w).currentJob.isEqual job = false ∧ (s.worker w).returns job = false
  holding : ∀ w, (s.phase w).done.isSome → Holding job (s.worker w)

/-- The walkers of `XLArig.Walk`: one for each lane. -/
def toWalk (job : Job) (s : Rounds ι N) : Walk (ι × Nat) where
  next := (s.nonce.nonces job.index).toNat
  held := fun k =>
    if k.2 < N k.1 then
      ((s.phase k.1).done).map fun n =>
        ((s.worker k.1).laneWindow k.2, (s.worker k.1).step + n)
    else none
  log := s.hashed.map fun n => n.toNat % job.space

/-- The invariant of the workers a move does not touch. -/
theorem Inv.move (h : s.Inv job) {σ : Nonce} {wj : WorkerJob (N w)} {phase : Phase}
    (ha : σ.Aligned job.index reserveCount) (hidle : phase ≠ .idle)
    (hwj : phase.done.isSome → Holding job wj) : (s.move w σ wj phase).Inv job := by
  constructor
  · exact ha
  · intro v hv
    by_cases hvw : v = w
    · subst hvw
      simp only [Rounds.move, Function.update_self] at hv
      exact absurd hv hidle
    · simp only [Rounds.move, Function.update_of_ne hvw] at hv ⊢
      exact h.fresh v hv
  · intro v hv
    by_cases hvw : v = w
    · subst hvw
      simp only [Rounds.move, Function.update_self] at hv ⊢
      exact hwj hv
    · simp only [Rounds.move, Function.update_of_ne hvw] at hv ⊢
      exact h.holding v hv

/-- A worker that was dealt windows, seen as a deal to its lanes. -/
theorem toWalk_deal {m : UInt64} {p : Bool} {wj : WorkerJob (N w)}
    (hm : m.toNat = (s.nonce.nonces job.index).toNat + N w * reserveCount.toNat)
    (hstep : wj.step = 0)
    (hlanes : ∀ i < N w, wj.laneCount i =
      (s.nonce.nonces job.index).toNat + i * reserveCount.toNat) :
    ∃ ds, (Walk.machine (ι × Nat)).run (s.toWalk job) ds =
      some ((s.move w (s.nonce.advance job.index m p) wj .ready).toWalk job) := by
  let windows : ι × Nat → Option Window := fun k =>
    if k.1 = w ∧ k.2 < N w then
      some ⟨(s.nonce.nonces job.index).toNat + k.2 * reserveCount.toNat, reserveCount.toNat⟩
    else none
  have hmem : ∀ k v, windows k = some v → k.1 = w ∧ k.2 < N w ∧
      v = ⟨(s.nonce.nonces job.index).toNat + k.2 * reserveCount.toNat, reserveCount.toNat⟩ := by
    intro k v hk
    simp only [windows, Option.ite_none_right_eq_some, Option.some.injEq] at hk
    exact ⟨hk.1.1, hk.1.2, hk.2.symm⟩
  have hmul : ∀ i j : Nat, i < j →
      i * reserveCount.toNat + reserveCount.toNat ≤ j * reserveCount.toNat := by
    intro i j hij
    rw [← Nat.succ_mul]
    exact Nat.mul_le_mul_right _ hij
  have hdealt : (s.toWalk job).Dealt m.toNat windows := by
    constructor
    · simp only [toWalk]
      omega
    · intro k v hk
      obtain ⟨-, hi, rfl⟩ := hmem k v hk
      have := hmul _ _ hi
      simp only [toWalk, Window.stop]
      omega
    · intro k l u v hkl hu hv
      obtain ⟨hkw, -, rfl⟩ := hmem k u hu
      obtain ⟨hlw, -, rfl⟩ := hmem l v hv
      have hne : k.2 ≠ l.2 := fun h => hkl (Prod.ext (hkw.trans hlw.symm) h)
      simp only [Window.Apart, Window.stop]
      cases Nat.lt_or_gt_of_ne hne with
      | inl h =>
          have := hmul _ _ h
          omega
      | inr h =>
          have := hmul _ _ h
          omega
  refine ⟨[.deal m.toNat windows], ?_⟩
  simp only [Machine.run, Walk.machine, Walk.step, if_pos hdealt, Option.bind_some,
    Option.some.injEq]
  simp only [Walk.deal, toWalk, Rounds.move, Nonce.advance_nonces, Walk.mk.injEq, true_and, and_true]
  funext k
  by_cases hkw : k.1 = w
  · obtain ⟨v, i⟩ := k
    simp only at hkw
    subst hkw
    by_cases hi : i < N v
    · have hw : windows (v, i) = some (wj.laneWindow i) := by
        simp only [windows, hi, and_self, if_true, laneWindow, hlanes i hi, hstep, Nat.sub_zero]
      simp only [hw, hi, if_true, Function.update_self, Phase.done, Option.map_some, hstep]
    · simp only [windows, hi, and_false, if_false]
  · have hw : windows k = none := by simp only [windows, hkw, false_and, if_false]
    simp only [hw, Function.update_of_ne hkw]

/-- A worker that stops gives its windows up. -/
theorem toWalk_stop {m : UInt64} {p : Bool} {wj : WorkerJob (N w)}
    (hm : (s.nonce.nonces job.index).toNat ≤ m.toNat) :
    ∃ ds, (Walk.machine (ι × Nat)).run (s.toWalk job) ds =
      some ((s.move w (s.nonce.advance job.index m p) wj .stopped).toWalk job) := by
  have hdealt : (s.toWalk job).Dealt m.toNat fun _ => none := by
    constructor
    · exact hm
    · intro k v hk; contradiction
    · intro k l u v _ hu; contradiction
  refine ⟨[.deal m.toNat fun _ => none, .drop ((List.range (N w)).map (w, ·))], ?_⟩
  simp only [Machine.run, Walk.machine, Walk.step, if_pos hdealt, Option.bind_some,
    Option.some.injEq]
  simp only [Walk.drop, Walk.deal, toWalk, Rounds.move, Nonce.advance_nonces, Walk.mk.injEq,
    true_and, and_true]
  funext k
  obtain ⟨v, i⟩ := k
  by_cases hvw : v = w
  · subst hvw
    by_cases hi : i < N v
    · simp [Phase.done, hi]
    · simp [hi]
  · simp [Ne.symm hvw, hvw]

/-- Hashing visits the number of every lane. -/
theorem toWalk_hash (hready : s.phase w = .ready) (hhold : Holding job (s.worker w)) :
    ∃ ds, (Walk.machine (ι × Nat)).run (s.toWalk job) ds =
      some (toWalk job { s with
        phase := Function.update s.phase w .hashed
        hashed := s.nonces w ++ s.hashed }) := by
  let keys : List (ι × Nat) := (List.range (N w)).map (w, ·)
  have hmem : ∀ k, k ∈ keys ↔ k.1 = w ∧ k.2 < N w := by
    rintro ⟨v, i⟩
    simp only [keys, List.mem_map, List.mem_range, Prod.mk.injEq]
    constructor
    · rintro ⟨j, hj, rfl, rfl⟩
      exact ⟨rfl, hj⟩
    · rintro ⟨rfl, hi⟩
      exact ⟨i, hi, rfl, rfl⟩
  have hheld : ∀ i < N w, (s.toWalk job).held (w, i) =
      some ((s.worker w).laneWindow i, (s.worker w).step) := by
    intro i hi
    simp only [toWalk, hi, if_true, hready, Phase.done, Option.map_some, Nat.add_zero]
  have hr : (s.toWalk job).Ready keys := by
    constructor
    · apply List.Nodup.map _ List.nodup_range
      exact fun i j h => (Prod.mk.inj h).2
    · rintro ⟨v, i⟩ hk
      obtain ⟨rfl, hi⟩ := (hmem _).mp hk
      exact ⟨_, _, hheld i hi, step_lt _⟩
  have hnumber : keys.filterMap (s.toWalk job).number =
      (s.nonces w).map fun n => n.toNat % job.space := by
    simp only [keys, nonces, List.filterMap_map, List.map_map]
    rw [← List.filterMap_eq_map]
    apply List.filterMap_congr
    intro i hi
    obtain ⟨q, hq, -⟩ := hhold.lanes i (List.mem_range.mp hi)
    simp only [Function.comp_apply, Walk.number, hheld i (List.mem_range.mp hi), Option.map_some,
      laneWindow, hhold.laneNonce_mod, Option.some.injEq]
    omega
  refine ⟨[.visit keys], ?_⟩
  simp only [Machine.run, Walk.machine, Walk.step, if_pos hr, Option.bind_some, Option.some.injEq]
  simp only [Walk.visit, hnumber]
  simp only [toWalk, Walk.mk.injEq, List.map_append, true_and, and_true]
  funext k
  obtain ⟨v, i⟩ := k
  by_cases hk : (v, i) ∈ keys
  · obtain ⟨hvw, hi⟩ := (hmem _).mp hk
    simp only at hvw hi
    subst hvw
    simp [hk, hi, hready, Phase.done]
  · by_cases hvw : v = w
    · subst hvw
      have hi : ¬ i < N v := fun hi => hk ((hmem _).mpr ⟨rfl, hi⟩)
      simp [hi]
    · simp [hk, hvw]

/-! ## The run -/

omit [DecidableEq ι] in
theorem inv_of_start (h : Start job s) : s.Inv job := by
  constructor
  · unfold Nonce.Aligned
    rw [h.counter]
    exact Nat.dvd_zero _
  · exact fun w _ => h.fresh w
  · intro w hw
    rw [h.idle w] at hw
    contradiction

/-- One step, taken where a pick-up finds room for all lanes. -/
theorem step_simulates {e : Event ι} (hsize : job.Sized) (hinv : s.Inv job)
    (hpick : Picks job s e) (h : step job s e = some s') :
    s'.Inv job ∧ ∃ ds, (Walk.machine (ι × Nat)).run (s.toWalk job) ds = some (s'.toWalk job) := by
  cases e with
  | add w =>
      simp only [step, Option.ite_none_right_eq_some, Option.some.injEq] at h
      obtain ⟨hidle, rfl⟩ := h
      obtain ⟨m, p, hfst, hm, hhold, hstep, hlanes⟩ :=
        add_fresh (hinv.fresh w hidle) hsize hinv.aligned hpick
      rw [hfst]
      refine ⟨hinv.move ?_ (by simp) (fun _ => hhold), toWalk_deal hm hstep hlanes⟩
      unfold Nonce.Aligned
      rw [Nonce.advance_nonces, hm]
      exact Nat.dvd_add hinv.aligned (Nat.dvd_mul_left _ _)
  | hash w =>
      simp only [step, Option.ite_none_right_eq_some, Option.some.injEq] at h
      obtain ⟨hready, rfl⟩ := h
      have hhold := hinv.holding w (by rw [hready]; rfl)
      refine ⟨?_, toWalk_hash hready hhold⟩
      constructor
      · exact hinv.aligned
      · intro v hv
        by_cases hvw : v = w
        · subst hvw
          simp only [Function.update_self] at hv
          contradiction
        · simp only [Function.update_of_ne hvw] at hv
          exact hinv.fresh v hv
      · intro v hv
        by_cases hvw : v = w
        · subst hvw
          exact hhold
        · simp only [Function.update_of_ne hvw] at hv
          exact hinv.holding v hv
  | nextRound w =>
      simp only [step, Option.ite_none_right_eq_some] at h
      obtain ⟨hhashed, h⟩ := h
      have hhold := hinv.holding w (by rw [hhashed]; rfl)
      by_cases hb : (s.worker w).atBoundary reserveCount
      · have hgranted := nextRound_granted hhold hsize hinv.aligned hb hpick
        have hrefused := nextRound_refused hhold hsize hinv.aligned hb hpick
        generalize (s.worker w).nextRound s.nonce reserveCount 1 = x at h hgranted hrefused
        obtain ⟨σ, wj, cs, ok⟩ := x
        cases ok with
        | true =>
            simp only [Option.some.injEq] at h
            subst h
            obtain ⟨m, p, hfst, hm, hhold', hstep, hlanes⟩ := hgranted rfl
            simp only at hfst hhold' hstep hlanes
            subst hfst
            refine ⟨hinv.move ?_ (by simp) (fun _ => hhold'), toWalk_deal hm hstep hlanes⟩
            unfold Nonce.Aligned
            rw [Nonce.advance_nonces, hm]
            exact Nat.dvd_add hinv.aligned (Nat.dvd_mul_left _ _)
        | false =>
            simp only [Option.some.injEq] at h
            subst h
            obtain ⟨m, p, hfst, hm, hdvd⟩ := hrefused
            simp only at hfst
            subst hfst
            refine ⟨hinv.move ?_ (by simp) (fun hd => ?_), toWalk_stop hm⟩
            · unfold Nonce.Aligned
              rw [Nonce.advance_nonces]
              exact hdvd
            · exact absurd hd (by simp [Phase.done])
      · obtain ⟨hσ, hok, hhold', hstep, hlanes⟩ := nextRound_walk hhold hsize hb
        generalize (s.worker w).nextRound s.nonce reserveCount 1 = x at h hσ hok hhold' hstep hlanes
        obtain ⟨σ, wj, cs, ok⟩ := x
        simp only at hσ hok hhold' hstep hlanes
        subst hσ hok
        simp only [Option.some.injEq] at h
        subst h
        refine ⟨hinv.move hinv.aligned (by simp) (fun _ => hhold'), [], ?_⟩
        -- the walkers do not see the step: the numbers hashed are counted before it
        simp only [Machine.run, Option.some.injEq, toWalk, Rounds.move, Walk.mk.injEq, true_and,
          and_true]
        funext k
        obtain ⟨v, i⟩ := k
        by_cases hvw : v = w
        · subst hvw
          by_cases hi : i < N v
          · simp only [hi, if_true, hhashed, Function.update_self, Phase.done, Option.map_some,
              laneWindow, hlanes i hi, hstep, Nat.add_sub_add_right, Nat.add_zero]
          · simp only [hi, if_false]
        · simp only [Function.update_of_ne hvw]

theorem inv_of_reachable (hsize : job.Sized)
    (h : (machine ι N job).ReachableIf (Picks job) s) : s.Inv job :=
  h.invariant (fun _ h0 => inv_of_start h0)
    fun _ _ _ hinv hpick hs => (step_simulates hsize hinv hpick hs).1

theorem refines (hsize : job.Sized) :
    Machine.Refines (machine ι N job) (Picks job) (Walk.machine (ι × Nat)) (toWalk job) := by
  constructor
  · intro s h
    constructor
    · intro k
      simp only [toWalk, h.idle k.1, Phase.done, Option.map_none, ite_self]
    · simp only [toWalk, h.hashed, List.map_nil]
  · intro s e s' hreach hpick h
    exact (step_simulates hsize (inv_of_reachable hsize hreach) hpick h).2

/-- **No two hashes use one nonce**, in every run in which each pick-up of the job
finds room for the windows of all its lanes. -/
theorem hashed_nodup (hsize : job.Sized) (h : (machine ι N job).ReachableIf (Picks job) s) :
    s.hashed.Nodup :=
  List.Nodup.of_map _ (Walk.log_nodup ((refines hsize).reachable h))

end Rounds

end XLArig.WorkerJob

namespace XLArig.WorkerJob.Rounds

/-! ## Runs on a NiceHash job -/

/-- `n` workers with five lanes that have not seen a job. -/
def fiveLanes (n : Nat) : Rounds (Fin n) fun _ => 5 :=
  ⟨Nonce.init, fun _ => empty, fun _ => .idle, []⟩

theorem start_fiveLanes (n : Nat) : Start (.sample "1") (fiveLanes n) := by
  constructor
  · rfl
  · exact fun _ => rfl
  · intro w
    have hfresh : (empty : WorkerJob 5).currentJob.isEqual (.sample "1") = false ∧
        (empty : WorkerJob 5).returns (.sample "1") = false := by decide
    exact hfresh
  · rfl

/-- Two workers hash a first and a second nonce in every lane. -/
theorem hashed_nodup_two : ∃ s : Rounds (Fin 2) fun _ => 5,
    s.hashed.length = 20 ∧ s.hashed.Nodup := by
  let events : List (Event (Fin 2)) :=
    [.add 0, .add 1, .hash 1, .hash 0, .nextRound 0, .nextRound 1, .hash 0, .hash 1]
  have hm : (machine (Fin 2) (fun _ => 5) (.sample "1")).Meets (Picks (.sample "1"))
      (fiveLanes 2) events := by decide
  have hrun : ((machine (Fin 2) (fun _ => 5) (.sample "1")).run (fiveLanes 2) events).any
      (fun s => decide (s.hashed.length = 20)) = true := by decide
  obtain ⟨s, hs, hp⟩ := Machine.ReachableIf.exists_of_run (start_fiveLanes 2) hm hrun
  exact ⟨s, of_decide_eq_true hp, hashed_nodup (by decide) hs⟩

set_option maxRecDepth 10000 in
/-- **A nonce is hashed twice.**  The 24-bit mask has 512 windows.  Of 103 workers
with five lanes, the last one gets windows for two lanes; the other three lanes
are all hashed with the nonce of the pool. -/
theorem hashed_twice : ∃ s : Rounds (Fin 103) fun _ => 5,
    (machine (Fin 103) (fun _ => 5) (.sample "1")).Reachable s ∧ ¬ s.hashed.Nodup := by
  have hrun : ((machine (Fin 103) (fun _ => 5) (.sample "1")).run (fiveLanes 103)
      ((List.finRange 103).map .add ++ [.hash 102])).any (fun s => !decide s.hashed.Nodup) = true := by
    decide
  obtain ⟨s, hs, hp⟩ := Machine.Reachable.exists_of_run (start_fiveLanes 103) hrun
  exact ⟨s, hs, of_decide_eq_false (Bool.not_eq_true' _ ▸ hp)⟩

end XLArig.WorkerJob.Rounds
