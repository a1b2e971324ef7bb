import XLArig.Miner
import XLArig.WorkerJob.Field

/-!
# XLArig.CpuWorker

`backend/cpu/CpuWorker`: one thread of the CPU backend, as a machine that takes
one shared access at a time.

`Pc` names the places of `CpuWorker::start` and `CpuWorker::consumeJob` at which
the thread reads a sequence number, the pause flag or the miner's job, or calls
`Nonce`.  Everything else is local and goes with the access before it: one pass of
the hashing loop captures the nonces, hashes, calls `nextRound` and submits.

What the thread hashes, is granted and submits is handed out as a `Trace`.  The
slots of a worker remember where its lanes come from; the code does not read
them.
-/

namespace XLArig

/-! ## Hash functions -/

/-- The hash functions.  `hash` is the hash of one blob at one height; RandomX
splits it into two halves, the first of which leaves a state for the second. -/
class Hasher [Features] where
  State : Type
  init : State
  hash : Algorithm → UInt64 → List UInt8 → Memory
  hashFirst : Algorithm → List UInt8 → State
  hashNext : Algorithm → State → Memory
  hashNext_hashFirst : ∀ {a : Algorithm} (height : UInt64) (blob : List UInt8),
    a.family = .RANDOM_X → hashNext a (hashFirst a blob) = hash a height blob

/-- Hashes that are zero: the runs on concrete inputs use them. -/
instance zeroHasher [Features] : Hasher where
  State := Unit
  init := ()
  hash _ _ _ := fun _ => 0
  hashFirst _ _ := ()
  hashNext _ _ := fun _ => 0
  hashNext_hashFirst _ _ _ := rfl

/-! ## What a worker leaves behind -/

/-- `Nonce::next` granted the window at `counter` to a lane. -/
structure Grant where
  job : Job
  lane : Nat
  period : Nat
  counter : UInt64

/-- A lane was hashed with `nonce`; `grant` is the last window it was granted. -/
structure Hashed where
  job : Job
  lane : Nat
  nonce : UInt64
  grant : Option Grant

/-- A result was submitted; `job` is the job the blob was copied from. -/
structure Submission where
  job : Job
  result : JobResult

/-- What a step of a worker shows. -/
structure Trace where
  granted : List Grant
  hashed : List Hashed
  submitted : List Submission

/-- Nothing happened. -/
def Trace.empty : Trace := ⟨[], [], []⟩

/-- The last window of a lane, and whether the last request for one was refused. -/
structure Lane where
  grant : Option Grant
  refused : Bool

/-- Where the lanes of one of the two jobs come from; `held` says that a job was
saved. -/
structure Slot where
  held : Bool
  job : Job
  lane : Nat → Lane

/-- No job was saved. -/
def Slot.empty : Slot := ⟨false, Job.empty, fun _ => ⟨none, true⟩⟩

/-- The places of a worker.  `asleep` says that the job is consumed after a pause
and not at the end of the outer loop. -/
inductive Pc
  | outer
  | paused
  | sleep
  | sleepSequence
  | wake
  | consume (asleep : Bool)
  | copy (asleep : Bool)
  | add (asleep : Bool)
  | allocate (asleep : Bool)
  | inner
  | body
  | done
  deriving DecidableEq, Repr

/-- `CpuWorker<N>`, with the local variables `job` of `consumeJob` and `first`
and `tempHash` of `start`. -/
structure CpuWorker [Features] [Hasher] (N : Nat) where
  pc : Pc
  algorithm : Algorithm
  job : WorkerJob N
  next : Job
  first : Bool
  tempHash : Hasher.State
  hash : Memory
  slots : Fin 2 → Slot

namespace CpuWorker

variable [Features] [Hasher] {N : Nat}

/-- A worker that was just created.  What its self-test leaves in the blob and in
`m_hash` is overwritten before it is used. -/
def init (algorithm : Algorithm) : CpuWorker N where
  pc := .outer
  algorithm := algorithm
  job := .empty
  next := Job.empty
  first := true
  tempHash := Hasher.init
  hash := fun _ => 0
  slots := fun _ => .empty

/-- `selfTest`, when the reference hashes are right.  The hash functions without a
version for several lanes fail for more than one. -/
def selfTest (N : Nat) (algorithm : Algorithm) : Bool :=
  match algorithm.family with
  | .RANDOM_X | .ARGON2 | .ASTROBWT => N == 1
  | .CN | .CN_LITE | .CN_HEAVY | .CN_PICO => true
  | .KAWPOW | .UNKNOWN => false

/-- A thread whose self-test fails does not start. -/
def launch (algorithm : Algorithm) : CpuWorker N :=
  let w := init algorithm
  if selfTest N algorithm then w else { w with pc := .done }

def goto (w : CpuWorker N) (pc : Pc) : CpuWorker N := { w with pc }

/-- The inner loop starts with a new pipeline. -/
def enter (w : CpuWorker N) : CpuWorker N :=
  { w with
    pc := .inner
    first := true
    tempHash := Hasher.init }

/-- `consumeJob` returns. -/
def leave (w : CpuWorker N) (asleep : Bool) : CpuWorker N :=
  if asleep then w.enter else w.goto .outer

/-- The slot of the current job. -/
def slot (w : CpuWorker N) : Slot := w.slots w.job.index

/-! ## Consuming a job -/

/-- The lanes of a slot that `save` has filled. -/
def saved (job : Job) (period : Nat) (counters : List (Option UInt64)) : Slot where
  held := true
  job := job
  lane := fun i =>
    match counters[i]?.join with
    | some counter => ⟨some ⟨job, i, period, counter⟩, false⟩
    | none => ⟨none, true⟩

/-- The windows that were granted. -/
def Slot.grants (slot : Slot) (lanes : Nat) : List Grant :=
  (List.range lanes).filterMap fun i => (slot.lane i).grant

/-- `WorkerJob::add`. -/
def add (σ : Nonce) (w : CpuWorker N) (asleep : Bool) : Nonce × CpuWorker N × Trace :=
  let (σ', wj, counters) := w.job.add σ w.next reserveCount .CPU
  let w' := { w with
    pc := .allocate asleep
    job := wj }
  if w.job.saves w.next then
    let slot := saved w.next (σ.period w.next.index) counters
    (σ', { w' with slots := Function.update w.slots w.next.index slot },
      { Trace.empty with granted := Slot.grants slot N })
  else (σ', w', .empty)

/-! ## Hashing -/

/-- RandomX and AstroBWT only hash the first lane. -/
def width (N : Nat) (job : Job) : Nat :=
  match job.algorithm.family with
  | .RANDOM_X | .ASTROBWT => min 1 N
  | _ => N

/-- The blob of lane `i`, as a hash function reads it. -/
def input (w : CpuWorker N) (i : Nat) : List UInt8 :=
  w.job.blob.slice (i * w.job.currentJob.size) w.job.currentJob.size

/-- The first `n` lanes are hashed, each on its own. -/
def hashLanes (w : CpuWorker N) : (n : Nat) → Memory
  | 0 => w.hash
  | n + 1 =>
      let job := w.job.currentJob
      (w.hashLanes n).copy (n * 32) (Hasher.hash job.algorithm job.height (w.input n)) 32

/-- What the lanes that are about to be hashed hold. -/
def hashed (w : CpuWorker N) : List Hashed :=
  (List.range (width N w.job.currentJob)).map fun i =>
    ⟨w.slot.job, i, w.job.laneNonce i, (w.slot.lane i).grant⟩

/-- After a request for new windows, `counters` of which were granted. -/
def Slot.renew (slot : Slot) (period : Nat) (counters : List UInt64) : Slot :=
  { slot with
    lane := fun i =>
      match counters[i]? with
      | some counter => ⟨some ⟨slot.job, i, period, counter⟩, false⟩
      | none => { slot.lane i with refused := true } }

/-- `CpuWorker::nextRound`. -/
def nextRound (σ : Nonce) (w : CpuWorker N) : Nonce × CpuWorker N × List Grant × Bool :=
  let (σ', wj, counters, ok) := w.job.nextRound σ reserveCount 1
  let w' := { w with job := wj }
  if w.job.atBoundary reserveCount then
    let slot := Slot.renew w.slot (σ.period w.job.index) counters
    (σ', { w' with slots := Function.update w.slots w.job.index slot },
      Slot.grants slot counters.length, ok)
  else (σ', w', [], ok)

/-- The results of the lanes whose hash is below the target; `job` is the job
hashed and `nonces` are the nonces captured before the round. -/
def results (w : CpuWorker N) (job : Job) (nonces : Nat → UInt32) : List JobResult :=
  (List.range N).filterMap fun i =>
    if w.hash.read64 (i * 32 + 24) < job.target then
      some (.ofJob job (nonces i).toUInt64 (w.hash.part (i * 32) 32))
    else none

/-- The hash before the round: RandomX fills the pipeline if it is empty, the
others write `m_hash`.  `valid` is what `astrobwt_dero` returns. -/
def hashBefore (w : CpuWorker N) (valid : Bool) : CpuWorker N :=
  let job := w.job.currentJob
  match job.algorithm.family with
  | .RANDOM_X =>
      if w.first then
        { w with
          first := false
          tempHash := Hasher.hashFirst job.algorithm (w.input 0) }
      else w
  | .ASTROBWT => if valid then { w with hash := w.hashLanes (width N job) } else w
  | _ => { w with hash := w.hashLanes (width N job) }

/-- The hash after the round: RandomX finishes the blob of the last round and
begins with the one of the next. -/
def hashAfter (w : CpuWorker N) : CpuWorker N :=
  let job := w.job.currentJob
  if job.algorithm.family = .RANDOM_X then
    { w with
      hash := w.hash.copy 0 (Hasher.hashNext job.algorithm w.tempHash) 32
      tempHash := Hasher.hashFirst job.algorithm (w.input 0) }
  else w

/-- The body of the inner loop. -/
def body (σ : Nonce) (w : CpuWorker N) (valid : Bool) : Nonce × CpuWorker N × Trace :=
  let job := w.job.currentJob
  let nonces := fun i => w.job.blob.read32 (w.job.nonce i)
  match (w.hashBefore valid).nextRound σ with
  | (σ', w', granted, false) => (σ', w'.goto (.consume false), ⟨granted, w.hashed, []⟩)
  | (σ', w', granted, true) =>
      let w' := w'.hashAfter
      let submitted := if job.algorithm.family = .ASTROBWT && !valid then []
        else (w'.results job nonces).map (⟨w.slot.job, ·⟩)
      (σ', w'.goto .inner, ⟨granted, w.hashed, submitted⟩)

/-! ## The loop -/

/-- The recorded sequence is the current one, and the scratchpad fits the job. -/
def passes (σ : Nonce) (w : CpuWorker N) : Bool :=
  !σ.isOutdated .CPU w.job.sequence && w.job.currentJob.algorithm.l3 == w.algorithm.l3

/-- A step that only reads what the threads share. -/
def quiet (s : Miner) (w : CpuWorker N) : Nonce × CpuWorker N × Trace := (s.nonce, w, .empty)

/-- One step of the thread.  `answer` is what the environment says: whether the
dataset of the job is there, whether an AstroBWT hash is valid. -/
def step (s : Miner) (w : CpuWorker N) (answer : Bool) : Option (Nonce × CpuWorker N × Trace) :=
  let stopped := s.nonce.sequence .CPU == 0
  match w.pc with
  | .outer => some (quiet s (w.goto (if stopped then .done else .paused)))
  | .paused => some (quiet s (if s.nonce.paused then w.goto .sleep else w.enter))
  | .sleep => some (quiet s (w.goto (if s.nonce.paused then .sleepSequence else .wake)))
  | .sleepSequence => some (quiet s (w.goto (if stopped then .wake else .sleep)))
  | .wake => some (quiet s (w.goto (if stopped then .done else .consume true)))
  | .consume asleep => some (quiet s (if stopped then w.leave asleep else w.goto (.copy asleep)))
  | .copy asleep =>
      some (quiet s { w with
        pc := .add asleep
        next := s.job })
  | .add asleep => some (w.add s.nonce asleep)
  | .allocate asleep =>
      let waits := w.job.currentJob.algorithm.family == .RANDOM_X && !answer && !stopped
      some (quiet s (if waits then w else w.leave asleep))
  | .inner => some (quiet s (w.goto (if w.passes s.nonce then .body else .consume false)))
  | .body => some (w.body s.nonce answer)
  | .done => none

/-! ## One step -/

variable {s : Miner} {σ : Nonce} {w w' : CpuWorker N} {answer asleep valid : Bool}
variable {x : Nonce × CpuWorker N × Trace}

/-- What a step that only reads leaves alone; the pipeline is kept or emptied. -/
structure Keeps (w w' : CpuWorker N) : Prop where
  algorithm : w'.algorithm = w.algorithm
  job : w'.job = w.job
  hash : w'.hash = w.hash
  slots : w'.slots = w.slots
  pipeline : (w'.first = w.first ∧ w'.tempHash = w.tempHash) ∨ w'.first = true

theorem keeps_goto (pc : Pc) : w.Keeps (w.goto pc) := ⟨rfl, rfl, rfl, rfl, .inl ⟨rfl, rfl⟩⟩

theorem keeps_enter : w.Keeps w.enter := ⟨rfl, rfl, rfl, rfl, .inr rfl⟩

theorem keeps_leave : w.Keeps (w.leave asleep) := by
  unfold leave
  split
  · exact keeps_enter
  · exact keeps_goto _

/-- A step reads, adds a job, or hashes. -/
theorem step_cases (h : w.step s answer = some x) :
    (∃ w', x = quiet s w' ∧ w.Keeps w') ∨
      (∃ asleep, w.pc = .add asleep ∧ x = w.add s.nonce asleep) ∨
        (w.pc = .body ∧ x = w.body s.nonce answer) := by
  unfold step at h
  cases hpc : w.pc with
  | outer => exact .inl ⟨_, by simpa [hpc] using h.symm, keeps_goto _⟩
  | paused =>
      refine .inl ⟨_, by simpa [hpc] using h.symm, ?_⟩
      split
      · exact keeps_goto _
      · exact keeps_enter
  | sleep => exact .inl ⟨_, by simpa [hpc] using h.symm, keeps_goto _⟩
  | sleepSequence => exact .inl ⟨_, by simpa [hpc] using h.symm, keeps_goto _⟩
  | wake => exact .inl ⟨_, by simpa [hpc] using h.symm, keeps_goto _⟩
  | consume asleep =>
      refine .inl ⟨_, by simpa [hpc] using h.symm, ?_⟩
      split
      · exact keeps_leave
      · exact keeps_goto _
  | copy asleep =>
      rw [hpc] at h
      exact .inl ⟨_, (Option.some.inj h).symm, ⟨rfl, rfl, rfl, rfl, .inl ⟨rfl, rfl⟩⟩⟩
  | add asleep => exact .inr (.inl ⟨asleep, rfl, by simpa [hpc] using h.symm⟩)
  | allocate asleep =>
      refine .inl ⟨_, by simpa [hpc] using h.symm, ?_⟩
      split
      · exact ⟨rfl, rfl, rfl, rfl, .inl ⟨rfl, rfl⟩⟩
      · exact keeps_leave
  | inner => exact .inl ⟨_, by simpa [hpc] using h.symm, keeps_goto _⟩
  | body => exact .inr (.inr ⟨rfl, by simpa [hpc] using h.symm⟩)
  | done => rw [hpc] at h; contradiction

/-! ### `add` -/

theorem add_fst (σ : Nonce) (w : CpuWorker N) (asleep : Bool) :
    (w.add σ asleep).1 = (w.job.add σ w.next reserveCount .CPU).1 := by
  unfold add
  dsimp only
  split <;> rfl

theorem add_job (σ : Nonce) (w : CpuWorker N) (asleep : Bool) :
    (w.add σ asleep).2.1.job = (w.job.add σ w.next reserveCount .CPU).2.1 := by
  unfold add
  dsimp only
  split <;> rfl

theorem add_algorithm (σ : Nonce) (w : CpuWorker N) (asleep : Bool) :
    (w.add σ asleep).2.1.algorithm = w.algorithm := by
  unfold add
  dsimp only
  split <;> rfl

/-! ### `body` -/

/-- The hash before the round writes `m_hash`, fills the pipeline, or does neither. -/
theorem hashBefore_cases (w : CpuWorker N) (valid : Bool) :
    w.hashBefore valid = w ∨ (∃ hash, w.hashBefore valid = { w with hash }) ∨
      ∃ tempHash, w.hashBefore valid = { w with
        first := false
        tempHash } := by
  unfold hashBefore
  dsimp only
  split
  · split
    · exact .inr (.inr ⟨_, rfl⟩)
    · exact .inl rfl
  · split
    · exact .inr (.inl ⟨_, rfl⟩)
    · exact .inl rfl
  · exact .inr (.inl ⟨_, rfl⟩)

@[simp] theorem hashBefore_job : (w.hashBefore valid).job = w.job := by
  obtain h | ⟨_, h⟩ | ⟨_, h⟩ := w.hashBefore_cases valid <;> rw [h]

@[simp] theorem hashBefore_slots : (w.hashBefore valid).slots = w.slots := by
  obtain h | ⟨_, h⟩ | ⟨_, h⟩ := w.hashBefore_cases valid <;> rw [h]

@[simp] theorem hashBefore_algorithm : (w.hashBefore valid).algorithm = w.algorithm := by
  obtain h | ⟨_, h⟩ | ⟨_, h⟩ := w.hashBefore_cases valid <;> rw [h]

@[simp] theorem hashAfter_job : w.hashAfter.job = w.job := by
  unfold hashAfter
  dsimp only
  split <;> rfl

@[simp] theorem hashAfter_slots : w.hashAfter.slots = w.slots := by
  unfold hashAfter
  dsimp only
  split <;> rfl

@[simp] theorem hashAfter_algorithm : w.hashAfter.algorithm = w.algorithm := by
  unfold hashAfter
  dsimp only
  split <;> rfl

theorem nextRound_fst (σ : Nonce) (w : CpuWorker N) :
    (w.nextRound σ).1 = (w.job.nextRound σ reserveCount 1).1 := by
  unfold nextRound
  dsimp only
  split <;> rfl

theorem nextRound_job (σ : Nonce) (w : CpuWorker N) :
    (w.nextRound σ).2.1.job = (w.job.nextRound σ reserveCount 1).2.1 := by
  unfold nextRound
  dsimp only
  split <;> rfl

theorem nextRound_result (σ : Nonce) (w : CpuWorker N) :
    (w.nextRound σ).2.2.2 = (w.job.nextRound σ reserveCount 1).2.2.2 := by
  unfold nextRound
  dsimp only
  split <;> rfl

theorem nextRound_algorithm (σ : Nonce) (w : CpuWorker N) :
    (w.nextRound σ).2.1.algorithm = w.algorithm := by
  unfold nextRound
  dsimp only
  split <;> rfl

theorem body_fst (σ : Nonce) (w : CpuWorker N) (valid : Bool) :
    (w.body σ valid).1 = (w.job.nextRound σ reserveCount 1).1 := by
  have h := nextRound_fst σ (w.hashBefore valid)
  rw [hashBefore_job] at h
  unfold body
  generalize (w.hashBefore valid).nextRound σ = y at h ⊢
  obtain ⟨σ', w', granted, _ | _⟩ := y <;> exact h

theorem body_job (σ : Nonce) (w : CpuWorker N) (valid : Bool) :
    (w.body σ valid).2.1.job = (w.job.nextRound σ reserveCount 1).2.1 := by
  have h := nextRound_job σ (w.hashBefore valid)
  rw [hashBefore_job] at h
  unfold body
  generalize (w.hashBefore valid).nextRound σ = y at h ⊢
  obtain ⟨σ', w', granted, _ | _⟩ := y
  · exact h
  · exact hashAfter_job.trans h

theorem body_algorithm (σ : Nonce) (w : CpuWorker N) (valid : Bool) :
    (w.body σ valid).2.1.algorithm = w.algorithm := by
  have h := nextRound_algorithm σ (w.hashBefore valid)
  rw [hashBefore_algorithm] at h
  unfold body
  generalize (w.hashBefore valid).nextRound σ = y at h ⊢
  obtain ⟨σ', w', granted, _ | _⟩ := y
  · exact h
  · exact hashAfter_algorithm.trans h

/-! ### Requests for windows -/

/-- The counter and the mask with which the next step calls `Nonce::next`, if it
does. -/
def asks (w : CpuWorker N) : Option (Fin 2 × UInt64) :=
  match w.pc with
  | .add _ => if w.job.saves w.next then some (w.next.index, w.next.nonceMask) else none
  | .body => if w.job.atBoundary reserveCount then some (w.job.index, w.job.nonceMask) else none
  | _ => none

/-- A step leaves the atomics alone, or it draws windows from one counter. -/
theorem step_drawn (h : w.step s answer = some x) (ha : ∀ k, s.nonce.Aligned k reserveCount)
    (hwrap : ∀ r ∈ w.asks, (s.nonce.nonces r.1).toNat + N * reserveCount.toNat < 2 ^ 64) :
    x.1 = s.nonce ∨ ∃ r ∈ w.asks, ∃ cs, Nonce.Drawn r.1 reserveCount r.2 N s.nonce x.1 cs := by
  obtain ⟨w', rfl, -⟩ | ⟨asleep, hpc, rfl⟩ | ⟨hpc, rfl⟩ := step_cases h
  · exact .inl rfl
  · rw [add_fst]
    cases hsaves : w.job.saves w.next with
    | false => exact .inl (WorkerJob.add_keeps hsaves ..).1
    | true =>
        have hr : w.asks = some (w.next.index, w.next.nonceMask) := by
          rw [asks, hpc]
          exact if_pos hsaves
        exact .inr ⟨_, hr, _, WorkerJob.add_drawn w.next (ha _) (hwrap _ hr)⟩
  · rw [body_fst]
    by_cases hb : w.job.atBoundary reserveCount
    · have hr : w.asks = some (w.job.index, w.job.nonceMask) := by
        rw [asks, hpc]
        exact if_pos hb
      exact .inr ⟨_, hr, _, WorkerJob.nextRound_drawn (ha _) fun _ => hwrap _ hr⟩
    · exact .inl (WorkerJob.nextRound_walks _ 1 hb).1

end CpuWorker

end XLArig
