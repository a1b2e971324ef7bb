import XLArig.CpuWorker

/-!
# XLArig.CpuWorker.Found

What becomes of the shares a CPU worker finds.

One pass of the hashing loop reserves the nonces of the next round after it has hashed those of
this one and before it looks at the hashes.  When a reservation is refused the pass ends there, so
the shares among these hashes are lost; they are submitted in every other pass.  A pass submits
all of its shares if and only if the reservations it makes are granted, or it has found none
(`none_lost_iff`).
-/

namespace XLArig

namespace CpuWorker

variable [Features] [Hasher] {N : Nat}

/-! ## One worker -/

/-- A worker on its own: the miner, what the other threads do to `Nonce` and what the environment
answers come with each step. -/
def alone (N : Nat) : Machine (CpuWorker N) (Miner × Bool) where
  init w := ∃ algorithm, w = launch algorithm
  step w e := (w.step e.1 e.2).map (·.2.1)

/-! ## Shares -/

/-- The nonce that stands in lane `i`. -/
def laneNonce (w : CpuWorker N) (i : Nat) : UInt32 := w.job.blob.read32 (w.job.nonce i)

/-- The hash of lane `i`. -/
def laneHash (w : CpuWorker N) (i : Nat) : Memory :=
  Hasher.hash w.job.currentJob.algorithm w.job.currentJob.height (w.input i)

/-- What lane `i` has found. -/
def share (w : CpuWorker N) (i : Nat) : Option JobResult :=
  let job := w.job.currentJob
  if (w.laneHash i).read64 24 < job.target then
    some (.ofJob job (w.laneNonce i).toUInt64 ((w.laneHash i).part 0 32))
  else none

/-- The lanes whose hash a pass computes or can complete; `valid` is what `astrobwt_dero`
returns. -/
def computed (w : CpuWorker N) (valid : Bool) : Nat :=
  if w.job.currentJob.algorithm.family = .ASTROBWT ∧ valid = false then 0
  else width N w.job.currentJob

/-- Each lane submits one result or none, and a computed one submits what it has found. -/
def Delivers (w : CpuWorker N) (valid : Bool) (submitted : List Submission) : Prop :=
  ∃ result : Nat → Option JobResult,
    submitted = ((List.range N).filterMap result).map (⟨w.slot.job, ·⟩) ∧
      ∀ i < w.computed valid, result i = w.share i

/-- The reservations of the pass are granted, if it makes any. -/
def Granted (σ : Nonce) (w : CpuWorker N) : Prop :=
  w.job.atBoundary reserveCount →
    (Nonce.requestsWhile w.job.index (reserveCount * 1) w.job.nonceMask N σ).2.2 = true

/-- The pass submits its shares. -/
def NoneLost (w : CpuWorker N) (e : Miner × Bool) : Prop :=
  w.pc = .body → w.Delivers e.2 (w.body e.1.nonce e.2).2.2.submitted

/-- The pass goes on, or it has no shares. -/
def Covered (w : CpuWorker N) (e : Miner × Bool) : Prop :=
  w.pc = .body → w.Granted e.1.nonce ∨ ∀ i < w.computed e.2, w.share i = none

variable {w w' : CpuWorker N} {σ : Nonce} {i n : Nat} {valid answer : Bool} {s : Miner}

theorem computed_le (w : CpuWorker N) (valid : Bool) : w.computed valid ≤ N := by
  have hwidth : width N w.job.currentJob ≤ N := by
    unfold width
    split
    · exact Nat.min_le_right 1 N
    · exact Nat.min_le_right 1 N
    · exact Nat.le_refl N
  unfold computed
  split
  · exact Nat.zero_le N
  · exact hwidth

/-! ## Hashes -/

/-- The hash of a lane stands in its 32 bytes. -/
theorem hashLanes_part (h : i < n) :
    (w.hashLanes n).part (i * 32) 32 = (w.laneHash i).part 0 32 := by
  induction n with
  | zero => contradiction
  | succ n ih =>
      rw [hashLanes]
      rcases Nat.lt_succ_iff_lt_or_eq.mp h with hi | rfl
      · rw [Memory.part_copy_of_disjoint (by omega), ih hi]
      · exact Memory.part_copy

omit [Features] [Hasher] in
theorem read64_part {m m' : Memory} {a b : Nat} (h : m.part a 32 = m'.part b 32) :
    m.read64 (a + 24) = m'.read64 (b + 24) := by
  have hread : ∀ (m : Memory) (a : Nat), m.read64 (a + 24) = (m.part a 32).read64 24 := by
    intro m a
    simp only [Memory.read64, Nat.add_assoc]
    rw [Memory.read32_part (by decide), Memory.read32_part (by decide)]
  rw [hread m, h, ← hread m']

/-- What the pass submits for lane `i`. -/
def tested (w : CpuWorker N) (job : Job) (nonces : Nat → UInt32) (i : Nat) : Option JobResult :=
  if w.hash.read64 (i * 32 + 24) < job.target then
    some (.ofJob job (nonces i).toUInt64 (w.hash.part (i * 32) 32))
  else none

theorem results_eq (job : Job) (nonces : Nat → UInt32) :
    w.results job nonces = (List.range N).filterMap (w.tested job nonces) := rfl

/-- A lane whose hash is in its place is tested for what it has found. -/
theorem tested_eq (h : w'.hash.part (i * 32) 32 = (w.laneHash i).part 0 32) :
    w'.tested w.job.currentJob w.laneNonce i = w.share i := by
  have hvalue : w'.hash.read64 (i * 32 + 24) = (w.laneHash i).read64 24 := by
    have hread := read64_part h
    rwa [Nat.zero_add] at hread
  unfold tested share
  rw [hvalue, h]

/-- The scratchpad is filled for the blob that is hashed next. -/
def Filled (w : CpuWorker N) : Prop :=
  w.first = false → w.job.currentJob.algorithm.family = .RANDOM_X →
    w.tempHash = Hasher.hashFirst w.job.currentJob.algorithm (w.input 0)

/-- And only so in the inner loop. -/
def Inv (w : CpuWorker N) : Prop := w.pc = .inner ∨ w.pc = .body → w.Filled

theorem nextRound_hash (σ : Nonce) (w : CpuWorker N) :
    (w.nextRound σ).2.1.hash = w.hash ∧ (w.nextRound σ).2.1.tempHash = w.tempHash ∧
      (w.nextRound σ).2.1.first = w.first := by
  unfold nextRound
  dsimp only
  split <;> exact ⟨rfl, rfl, rfl⟩

theorem nextRound_ok (σ : Nonce) (w : CpuWorker N) :
    (w.nextRound σ).2.2.2 = true ↔ w.Granted σ := by
  rw [nextRound_result]
  unfold Granted
  by_cases hb : w.job.atBoundary reserveCount
  · obtain ⟨-, hrequests⟩ := WorkerJob.nextRound_requests σ 1 hb
    rw [hrequests]
    exact ⟨fun h _ => h, fun h => h hb⟩
  · obtain ⟨-, hwalks⟩ := WorkerJob.nextRound_walks σ 1 hb
    rw [hwalks]
    exact ⟨fun _ h => absurd h hb, fun _ => rfl⟩

/-- The pipeline after the pass has begun. -/
theorem filled_hashBefore (h : w.Filled) (hrx : w.job.currentJob.algorithm.family = .RANDOM_X) :
    (w.hashBefore valid).tempHash = Hasher.hashFirst w.job.currentJob.algorithm (w.input 0) := by
  unfold hashBefore
  simp only [hrx]
  split
  case isTrue => rfl
  case isFalse hfirst => exact h (Bool.eq_false_of_not_eq_true hfirst) hrx

theorem hash_hashBefore (h : i < w.computed valid)
    (hrx : w.job.currentJob.algorithm.family ≠ .RANDOM_X) :
    (w.hashBefore valid).hash = w.hashLanes (width N w.job.currentJob) := by
  unfold hashBefore
  unfold computed at h
  dsimp only
  split
  · next hfamily => exact absurd hfamily hrx
  · next hfamily =>
    cases valid with
    | true => rfl
    | false =>
        rw [if_pos ⟨hfamily, rfl⟩] at h
        contradiction
  · rfl

/-! ## One pass -/

variable (valid) in
theorem granted_hashBefore : (w.hashBefore valid).Granted σ ↔ w.Granted σ := by
  unfold Granted
  rw [hashBefore_job]

/-- The worker at the end of a pass that goes on. -/
def finished (w : CpuWorker N) (σ : Nonce) (valid : Bool) : CpuWorker N :=
  ((w.hashBefore valid).nextRound σ).2.1.hashAfter

variable (valid) in
theorem body_refused (h : ¬ w.Granted σ) :
    (w.body σ valid).2.1.pc = .consume false ∧ (w.body σ valid).2.2.submitted = [] := by
  rw [← granted_hashBefore valid, ← nextRound_ok] at h
  unfold body
  generalize (w.hashBefore valid).nextRound σ = y at h ⊢
  obtain ⟨σ', w', granted, _ | _⟩ := y
  · exact ⟨rfl, rfl⟩
  · contradiction

theorem body_granted (h : w.Granted σ) : (w.body σ valid).2.1 = (w.finished σ valid).goto .inner ∧
    (w.body σ valid).2.2.submitted =
      if w.job.currentJob.algorithm.family = .ASTROBWT && !valid then []
      else ((w.finished σ valid).results w.job.currentJob w.laneNonce).map (⟨w.slot.job, ·⟩) := by
  rw [← granted_hashBefore valid, ← nextRound_ok] at h
  unfold body finished
  generalize (w.hashBefore valid).nextRound σ = y at h ⊢
  obtain ⟨σ', w', granted, _ | _⟩ := y
  · contradiction
  · exact ⟨rfl, rfl⟩

theorem algorithm_nextRound : (((w.hashBefore valid).nextRound σ).2.1.job.currentJob).algorithm =
    w.job.currentJob.algorithm := by
  rw [nextRound_job, hashBefore_job]
  exact (WorkerJob.sameJob_nextRound ..).algorithm

/-- The hashes stand in their places when they are tested. -/
theorem hash_finished (hfilled : w.Filled) (h : i < w.computed valid) :
    (w.finished σ valid).hash.part (i * 32) 32 = (w.laneHash i).part 0 32 := by
  obtain ⟨hhash, htemp, -⟩ := (w.hashBefore valid).nextRound_hash σ
  unfold finished hashAfter
  dsimp only
  rw [algorithm_nextRound]
  by_cases hrx : w.job.currentJob.algorithm.family = .RANDOM_X
  · rw [if_pos hrx]
    have hone : i = 0 := by
      have hwidth : width N w.job.currentJob = min 1 N := by simp only [width, hrx]
      simp only [computed, hrx, hwidth] at h
      split at h
      · contradiction
      · omega
    subst hone
    dsimp only
    rw [Nat.zero_mul, Memory.part_copy, htemp, filled_hashBefore hfilled hrx,
      Hasher.hashNext_hashFirst w.job.currentJob.height _ hrx]
    rfl
  · rw [if_neg hrx, hhash, hash_hashBefore h hrx]
    have hlt : i < width N w.job.currentJob := by
      unfold computed at h
      split at h
      · contradiction
      · exact h
    exact hashLanes_part hlt

/-- A pass that goes on submits its shares. -/
theorem delivers_of_granted (hfilled : w.Filled) (h : w.Granted σ) :
    w.Delivers valid (w.body σ valid).2.2.submitted := by
  rw [(body_granted h).2]
  by_cases hinvalid : w.job.currentJob.algorithm.family = .ASTROBWT ∧ valid = false
  · refine ⟨fun _ => none, ?_, fun i hi => ?_⟩
    · simp [hinvalid]
    · rw [computed, if_pos hinvalid] at hi
      contradiction
  · have hvalid : (w.job.currentJob.algorithm.family = .ASTROBWT && !valid) = false := by
      simpa using hinvalid
    refine ⟨(w.finished σ valid).tested w.job.currentJob w.laneNonce, ?_, fun i hi => ?_⟩
    · rw [hvalid, results_eq]
      rfl
    · exact tested_eq (hash_finished hfilled hi)

/-- A pass that does not has submitted nothing. -/
theorem delivers_nil_iff : w.Delivers valid [] ↔ ∀ i < w.computed valid, w.share i = none := by
  constructor
  · rintro ⟨result, hnil, hresult⟩ i hi
    rw [← hresult i hi]
    have hnone := List.filterMap_eq_nil_iff.mp (List.map_eq_nil_iff.mp hnil.symm)
    exact hnone i (List.mem_range.mpr (hi.trans_le (w.computed_le valid)))
  · intro h
    exact ⟨fun _ => none, by simp, fun i hi => (h i hi).symm⟩

theorem delivers_iff (hfilled : w.Filled) : w.Delivers valid (w.body σ valid).2.2.submitted ↔
    w.Granted σ ∨ ∀ i < w.computed valid, w.share i = none := by
  by_cases h : w.Granted σ
  · exact iff_of_true (delivers_of_granted hfilled h) (.inl h)
  · rw [(body_refused _ h).2, delivers_nil_iff, or_iff_right h]

/-! ## Runs -/

theorem filled_enter : w.enter.Filled := nofun

theorem inv_leave {asleep : Bool} : (w.leave asleep).Inv := by
  unfold leave
  split
  · exact fun _ => filled_enter
  · rintro (h | h) <;> contradiction

theorem filled_finished : (w.finished σ valid).Filled := by
  intro _ hrx
  unfold finished hashAfter at hrx ⊢
  dsimp only at hrx ⊢
  split at hrx
  · next h =>
    rw [if_pos h]
    rfl
  · next h => exact absurd hrx h

theorem inv_step {x : Nonce × CpuWorker N × Trace} (hinv : w.Inv) (h : w.step s answer = some x) :
    x.2.1.Inv := by
  have hother : ∀ t : CpuWorker N, t.pc ≠ .inner → t.pc ≠ .body → t.Inv := by
    intro t hinner hbody hpc
    exact absurd hpc (not_or.mpr ⟨hinner, hbody⟩)
  unfold step at h
  cases hpc : w.pc with
  | outer | sleep | sleepSequence | wake =>
      simp only [hpc, Option.some.injEq] at h
      subst h
      apply hother
      · simp only [quiet, goto]
        split <;> nofun
      · simp only [quiet, goto]
        split <;> nofun
  | paused =>
      simp only [hpc, Option.some.injEq] at h
      subst h
      simp only [quiet]
      split
      · exact hother _ nofun nofun
      · exact fun _ => filled_enter
  | consume asleep =>
      simp only [hpc, Option.some.injEq] at h
      subst h
      simp only [quiet]
      split
      · exact inv_leave
      · exact hother _ nofun nofun
  | copy asleep =>
      simp only [hpc, Option.some.injEq] at h
      subst h
      exact hother _ nofun nofun
  | add asleep =>
      simp only [hpc, Option.some.injEq] at h
      subst h
      have hadd : (w.add s.nonce asleep).2.1.pc = .allocate asleep := by
        unfold add
        dsimp only
        split <;> rfl
      exact hother _ (by rw [hadd]; nofun) (by rw [hadd]; nofun)
  | allocate asleep =>
      simp only [hpc, Option.some.injEq] at h
      subst h
      simp only [quiet]
      split
      · exact hother _ (by rw [hpc]; nofun) (by rw [hpc]; nofun)
      · exact inv_leave
  | inner =>
      simp only [hpc, Option.some.injEq] at h
      subst h
      exact fun _ => hinv (.inl hpc)
  | body =>
      simp only [hpc, Option.some.injEq] at h
      subst h
      by_cases hgranted : w.Granted s.nonce
      · rw [(body_granted hgranted).1]
        exact fun _ => filled_finished
      · have hpc' := (body_refused answer hgranted).1
        exact hother _ (by rw [hpc']; nofun) (by rw [hpc']; nofun)
  | done =>
      rw [hpc] at h
      contradiction

theorem inv_launch (algorithm : Algorithm) : (launch algorithm : CpuWorker N).Inv := by
  unfold launch
  dsimp only
  split
  · rintro (h | h) <;> contradiction
  · rintro (h | h) <;> contradiction

/-- **When no share is lost.**  Every pass of a run submits what its lanes have found if and only
if the reservations of each pass are granted, or none of its lanes has found anything. -/
theorem none_lost_iff (algorithm : Algorithm) (events : List (Miner × Bool)) :
    (alone N).Meets NoneLost (launch algorithm) events ↔
      (alone N).Meets Covered (launch algorithm) events := by
  refine Machine.meets_congr (inv_launch algorithm) ?_ ?_
  · intro w e w' hinv hstep
    obtain ⟨x, hx, rfl⟩ := Option.map_eq_some_iff.mp hstep
    exact inv_step hinv hx
  · intro w e hinv
    exact forall_congr' fun hpc => delivers_iff (hinv (.inr hpc))

end CpuWorker

end XLArig

namespace XLArig.CpuWorker

/-! ## The last window of a job -/

/-- A miner whose job any hash of zeros is a share of. -/
def sampleMiner : Miner :=
  { Miner.init (Miner.sample 1) with
    nonce := Nonce.init.pause false
    job := { Job.sample "1" with target := 1 } }

/-- The counters have come to their end. -/
def exhaustedMiner : Miner :=
  { sampleMiner with nonce := { sampleMiner.nonce with nonces := fun _ => 0x1000000 } }

/-- The worker is in its loop, and `k` rounds of its window are done. -/
structure Walking (w : CpuWorker 1) (k : Nat) : Prop where
  pc : w.pc = .inner
  passes : w.passes sampleMiner.nonce = true
  step : w.job.step = k
  algorithm : w.job.currentJob.algorithm = .CN_0
  size : w.job.currentJob.size = 76
  target : w.job.currentJob.target = 1
  nonceMask : w.job.nonceMask = 0xFFFFFF

theorem walking_zero : ∃ w, (alone 1).Reachable w ∧ w.Walking 0 := by
  let start : CpuWorker 1 := launch .CN_0
  have h0 : (alone 1).init start := ⟨_, rfl⟩
  have hrun : ((alone 1).run start (List.replicate 9 (sampleMiner, true))).any
      (fun w => decide (w.pc = .inner ∧ w.passes sampleMiner.nonce = true ∧ w.job.step = 0 ∧
        w.job.currentJob.algorithm = .CN_0 ∧ w.job.currentJob.size = 76 ∧
        w.job.currentJob.target = 1 ∧ w.job.nonceMask = 0xFFFFFF)) = true := by
    decide +kernel
  obtain ⟨w, hw, hp⟩ := Machine.Reachable.exists_of_run h0 hrun
  obtain ⟨hpc, hpasses, hstep, halgorithm, hsize, htarget, hmask⟩ := of_decide_eq_true hp
  exact ⟨w, hw, ⟨hpc, hpasses, hstep, halgorithm, hsize, htarget, hmask⟩⟩

/-- One more round inside the window. -/
theorem walking_next {w : CpuWorker 1} {k : Nat} (h : w.Walking k) (hk : k + 1 < 2 ^ 15) :
    ∃ w', (alone 1).run w [(sampleMiner, true), (sampleMiner, true)] = some w' ∧
      w'.Walking (k + 1) := by
  have hb : ¬ w.job.atBoundary reserveCount := by
    have hstep := h.step
    rw [WorkerJob.atBoundary_iff]
    rw [WorkerJob.step, WorkerJob.toNat_reserveCount] at hstep
    rw [WorkerJob.toNat_reserveCount]
    omega
  have hfamily : w.job.currentJob.algorithm.family = .CN := by rw [h.algorithm]; rfl
  have hfit : w.job.currentJob.nonceOffset + 4 ≤ w.job.currentJob.size := by
    rw [Job.nonceOffset, hfamily, h.size]
    decide
  obtain ⟨-, -, hsame, hround, -⟩ :=
    WorkerJob.nextRound_inside sampleMiner.nonce 1 hb hfit
  have hgranted : (w.goto .body).Granted sampleMiner.nonce := fun hb' => absurd hb' hb
  let t := (w.goto .body).finished sampleMiner.nonce true
  have hjob : t.job = (w.job.nextRound sampleMiner.nonce reserveCount 1).2.1 := by
    show ((((w.goto .body).hashBefore true).nextRound sampleMiner.nonce).2.1.hashAfter).job = _
    rw [hashAfter_job, nextRound_job, hashBefore_job]
    rfl
  have halgorithm : t.algorithm = w.algorithm := by
    show ((((w.goto .body).hashBefore true).nextRound
      sampleMiner.nonce).2.1.hashAfter).algorithm = _
    rw [hashAfter_algorithm, nextRound_algorithm, hashBefore_algorithm]
    rfl
  obtain ⟨blob, hcurrent⟩ := hsame.currentJob
  have hpasses : (t.goto .inner).passes sampleMiner.nonce = true := by
    have hp := h.passes
    unfold passes at hp ⊢
    show (!sampleMiner.nonce.isOutdated .CPU t.job.sequence &&
      t.job.currentJob.algorithm.l3 == t.algorithm.l3) = true
    rw [hjob, halgorithm, hsame.sequence, hsame.algorithm]
    exact hp
  refine ⟨t.goto .inner, ?_, ⟨rfl, hpasses, ?_, ?_, ?_, ?_, ?_⟩⟩
  · have hinner : (alone 1).step w (sampleMiner, true) = some (w.goto .body) := by
      simp [alone, step, h.pc, quiet, h.passes]
    have hbody : (alone 1).step (w.goto .body) (sampleMiner, true) = some (t.goto .inner) := by
      have hstep : (w.goto .body).step sampleMiner true =
          some ((w.goto .body).body sampleMiner.nonce true) := rfl
      show ((w.goto .body).step sampleMiner true).map (·.2.1) = _
      rw [hstep]
      exact congrArg some (body_granted hgranted).1
    simp [Machine.run, hinner, hbody]
  · show t.job.step = k + 1
    rw [hjob, WorkerJob.step_inside hround hb, h.step]
  · show t.job.currentJob.algorithm = _
    rw [hjob, hcurrent]
    exact h.algorithm
  · show t.job.currentJob.size = _
    rw [hjob, hcurrent]
    exact h.size
  · show t.job.currentJob.target = _
    rw [hjob, hcurrent]
    exact h.target
  · show t.job.nonceMask = _
    rw [hjob, hsame.nonceMask]
    exact h.nonceMask

theorem walking {k : Nat} (hk : k < 2 ^ 15) : ∃ w, (alone 1).Reachable w ∧ w.Walking k := by
  induction k with
  | zero => exact walking_zero
  | succ k ih =>
      obtain ⟨w, hw, hwalk⟩ := ih (by omega)
      obtain ⟨w', hrun, hwalk'⟩ := walking_next hwalk hk
      exact ⟨w', Machine.Reachable.run hw hrun, hwalk'⟩

/-- **A share is lost.**  The last hash of the last window of a job is under the target, and the
next reservation is refused. -/
theorem loses_share : ∃ w : CpuWorker 1, (alone 1).Reachable w ∧
    ¬ w.NoneLost (exhaustedMiner, true) := by
  obtain ⟨w, hw, hwalk⟩ := walking (show 2 ^ 15 - 1 < 2 ^ 15 by decide)
  have hinner : (alone 1).step w (sampleMiner, true) = some (w.goto .body) := by
    simp [alone, step, hwalk.pc, quiet, hwalk.passes]
  refine ⟨w.goto .body, hw.step trivial hinner, fun hlost => ?_⟩
  have hb : w.job.atBoundary reserveCount := by
    have hstep := hwalk.step
    rw [WorkerJob.atBoundary_iff]
    rw [WorkerJob.step, WorkerJob.toNat_reserveCount] at hstep
    rw [WorkerJob.toNat_reserveCount]
    omega
  have hrefused : ¬ (w.goto .body).Granted exhaustedMiner.nonce := by
    intro hgranted
    have hok := hgranted hb
    have hmask : (w.goto .body).job.nonceMask = 0xFFFFFF := hwalk.nonceMask
    rw [hmask] at hok
    revert hok
    generalize (w.goto .body).job.index = index
    revert index
    decide
  have hnil : (w.goto .body).Delivers true [] := by
    rw [← (body_refused _ hrefused).2]
    exact hlost rfl
  have hcomputed : 0 < (w.goto .body).computed true := by
    have halgorithm : (w.goto .body).job.currentJob.algorithm = .CN_0 := hwalk.algorithm
    simp only [computed, width, halgorithm]
    decide
  have hshare := delivers_nil_iff.mp hnil 0 hcomputed
  have htarget : (w.goto .body).job.currentJob.target = 1 := hwalk.target
  have hzero : (w.goto .body).laneHash 0 = fun _ => 0 := rfl
  have hless : Memory.read64 (fun _ => 0) 24 < 1 := by decide
  simp only [share, htarget, hzero, if_pos hless] at hshare
  contradiction

end XLArig.CpuWorker
