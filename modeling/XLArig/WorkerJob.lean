import XLArig.Job
import XLArig.Nonce.Next

/-!
# XLArig.WorkerJob

`backend/common/WorkerJob`: the two jobs a worker holds, one per index, and the
blobs of its `N` lanes, which stand one after the other, `size` bytes each.

The loops over the lanes are recursions on the number of lanes.  `save` drops
what `Nonce::next` returns; here it hands the results out, lane by lane, so that
a caller can tell which lanes were granted a window.
-/

namespace XLArig

/-- `kReserveCount`. -/
def reserveCount : UInt32 := 32768

/-- `WorkerJob<N>`. -/
structure WorkerJob (N : Nat) where
  blobs : Fin 2 → Memory
  jobs : Fin 2 → Job
  rounds : Fin 2 → UInt32
  nonceMasks : Fin 2 → UInt64
  sequence : UInt64
  index : Fin 2

namespace WorkerJob

variable [Features] {N : Nat}

/-- A default-constructed worker job. -/
def empty : WorkerJob N where
  blobs := fun _ _ => 0
  jobs := fun _ => Job.empty
  rounds := fun _ => 0
  nonceMasks := fun _ => 0
  sequence := 0
  index := userIndex

def currentJob (w : WorkerJob N) : Job := w.jobs w.index

def blob (w : WorkerJob N) : Memory := w.blobs w.index

def nonceMask (w : WorkerJob N) : UInt64 := w.nonceMasks w.index

/-- The round counter of the current job. -/
def round (w : WorkerJob N) : UInt32 := w.rounds w.index

/-- The offset of the nonce of lane `i` in the blob. -/
def nonce (w : WorkerJob N) (i : Nat) : Nat := i * w.currentJob.size + w.currentJob.nonceOffset

/-- The bytes of lane `i`. -/
def lane (w : WorkerJob N) (i : Nat) : Memory :=
  w.blob.part (i * w.currentJob.size) w.currentJob.size

/-! ## `save` -/

/-- The first `n` turns of the loop of `save`. -/
def saveLanes (job : Job) (reserveCount : UInt32) :
    (n : Nat) → Nonce → Memory → Nonce × Memory × List (Option UInt64)
  | 0, σ, mem => (σ, mem, [])
  | n + 1, σ, mem =>
      let (σ, mem, rs) := saveLanes job reserveCount n σ mem
      let mem := mem.copy (n * job.size) job.blob job.size
      let (σ, mem, r) :=
        σ.next job.index mem (n * job.size + job.nonceOffset) reserveCount job.nonceMask
      (σ, mem, rs ++ [r])

/-- `job` is the current job and `mem` its blob; no round is done yet. -/
def load (w : WorkerJob N) (job : Job) (mem : Memory) (backend : Backend) : WorkerJob N :=
  { w with
    blobs := Function.update w.blobs job.index mem
    jobs := Function.update w.jobs job.index (job.setBackend backend.toUInt32)
    rounds := Function.update w.rounds job.index 0
    nonceMasks := Function.update w.nonceMasks job.index job.nonceMask
    index := job.index }

/-- `save`, with what `Nonce::next` returned for each lane. -/
def save (σ : Nonce) (w : WorkerJob N) (job : Job) (reserveCount : UInt32) (backend : Backend) :
    Nonce × WorkerJob N × List (Option UInt64) :=
  let (σ, mem, rs) := saveLanes job reserveCount N σ (w.blobs job.index)
  (σ, w.load job mem backend, rs)

/-- Job 0 is still held while a job of index 1 is worked on. -/
def returns (w : WorkerJob N) (job : Job) : Bool :=
  w.index == donateIndex && job.index == userIndex && job.isEqual (w.jobs userIndex)

/-- Neither slot holds the job: `add` saves it. -/
def saves (w : WorkerJob N) (job : Job) : Bool := !w.currentJob.isEqual job && !w.returns job

/-- `add`, with the results of `save` if it was called. -/
def add (σ : Nonce) (w : WorkerJob N) (job : Job) (reserveCount : UInt32) (backend : Backend) :
    Nonce × WorkerJob N × List (Option UInt64) :=
  let w := { w with sequence := σ.sequence backend }
  if w.currentJob.isEqual job then (σ, w, [])
  else if w.returns job then (σ, { w with index := userIndex }, [])
  else w.save σ job reserveCount backend

/-! ## `nextRound` -/

/-- The first `n` turns of the loop that reserves: it ends at the first lane that
gets no window. -/
def nextLanes (w : WorkerJob N) (reserveCount : UInt32) :
    (n : Nat) → Nonce → Memory → Nonce × Memory × List UInt64 × Bool
  | 0, σ, mem => (σ, mem, [], true)
  | n + 1, σ, mem =>
      match w.nextLanes reserveCount n σ mem with
      | (σ, mem, cs, false) => (σ, mem, cs, false)
      | (σ, mem, cs, true) =>
          match σ.next w.index mem (w.nonce n) reserveCount w.nonceMask with
          | (σ, mem, some c) => (σ, mem, cs ++ [c], true)
          | (σ, mem, none) => (σ, mem, cs, false)

/-- The first `n` turns of the loop that steps inside the windows. -/
def walkLanes (w : WorkerJob N) (roundSize : UInt32) : (n : Nat) → Memory → Memory
  | 0, mem => mem
  | n + 1, mem =>
      let mem := w.walkLanes roundSize n mem
      mem.write32 (w.nonce n) (mem.read32 (w.nonce n) + roundSize)

/-- The next round asks for new windows. -/
def atBoundary (w : WorkerJob N) (rounds : UInt32) : Prop := (w.round + 1) &&& (rounds - 1) = 0

instance (w : WorkerJob N) (rounds : UInt32) : Decidable (w.atBoundary rounds) :=
  inferInstanceAs (Decidable (_ = _))

/-- `m_rounds[index()]++`. -/
def countRound (w : WorkerJob N) : WorkerJob N :=
  { w with rounds := Function.update w.rounds w.index (w.round + 1) }

/-- The blob of the current job is replaced. -/
def setBlob (w : WorkerJob N) (mem : Memory) : WorkerJob N :=
  { w with blobs := Function.update w.blobs w.index mem }

/-- `WorkerJob<1>` keeps the high word of an 8-byte nonce in its job. -/
def keepHighWord (w : WorkerJob N) : WorkerJob N :=
  if N = 1 ∧ w.currentJob.nonceSize = 8 then
    let high := w.currentJob.nonceOffset + 4
    let blob := w.currentJob.blob.write32 high (w.blob.read32 high)
    { w with jobs := Function.update w.jobs w.index { w.currentJob with blob } }
  else w

/-- `nextRound`, with the windows that were granted. -/
def nextRound (σ : Nonce) (w : WorkerJob N) (rounds roundSize : UInt32) :
    Nonce × WorkerJob N × List UInt64 × Bool :=
  let w' := w.countRound
  if w.atBoundary rounds then
    match w.nextLanes (rounds * roundSize) N σ w.blob with
    | (σ, mem, cs, true) => (σ, (w'.setBlob mem).keepHighWord, cs, true)
    | (σ, mem, cs, false) => (σ, w'.setBlob mem, cs, false)
  else (σ, w'.setBlob (w.walkLanes roundSize N w.blob), [], true)

end WorkerJob

end XLArig
