import XLArig.Job

/-!
# XLArig.CpuBackend

`backend/cpu/CpuBackend` as the miner drives it: the launch data of the running
threads, and how `setJob` and `stop` start and stop them through `Workers`.
-/

namespace XLArig

/-- `Assembly::Id`. -/
inductive Assembly
  | NONE
  | AUTO
  | INTEL
  | RYZEN
  | BULLDOZER
  deriving DecidableEq, Repr

/-- `CpuLaunchData`. -/
structure CpuLaunchData where
  algorithm : Algorithm
  assembly : Assembly
  astrobwtAVX2 : Bool
  hugePages : Bool
  hwAES : Bool
  yield : Bool
  astrobwtMaxSize : Int
  priority : Int
  affinity : Int
  threads : Nat
  intensity : Nat

/-- What the miner asks of `CpuConfig`: whether the backend is enabled, the launch
data for an algorithm and the name of its profile. -/
structure CpuConfig where
  isEnabled : Bool
  get : Algorithm → List CpuLaunchData
  profileName : Algorithm → CString

namespace CpuLaunchData

variable [Features]

/-- Only some of the fields are compared. -/
def isEqual (a b : CpuLaunchData) : Bool :=
  a.algorithm.l3 == b.algorithm.l3 && a.assembly == b.assembly && a.hugePages == b.hugePages &&
    a.hwAES == b.hwAES && a.intensity == b.intensity && a.priority == b.priority &&
    a.affinity == b.affinity

/-- `size() ==` and `std::equal`. -/
def allEqual : List CpuLaunchData → List CpuLaunchData → Bool
  | [], [] => true
  | a :: as, b :: bs => a.isEqual b && allEqual as bs
  | _, _ => false

end CpuLaunchData

/-- `CpuBackendPrivate`: the algorithm, profile and launch data of the threads. -/
structure CpuBackend where
  algo : Algorithm
  profileName : CString
  threads : List CpuLaunchData

namespace CpuBackend

def init : CpuBackend := ⟨.INVALID, none, []⟩

/-- `Workers::stop`: the threads are joined between the two calls of `Nonce`. -/
def stopWorkers (σ : Nonce) : Nonce := (σ.stopBackend .CPU).touchBackend .CPU

/-- `Workers::start`. -/
def startWorkers (σ : Nonce) : Nonce := σ.touchBackend .CPU

def stop (σ : Nonce) (b : CpuBackend) : Nonce × CpuBackend :=
  if b.threads = [] then (σ, b) else (stopWorkers σ, { b with threads := [] })

variable [Features]

/-- The threads that run are the ones the configuration asks for. -/
def upToDate (config : CpuConfig) (b : CpuBackend) (job : Job) : Bool :=
  !b.threads.isEmpty && CpuLaunchData.allEqual b.threads (config.get job.algorithm)

/-- `setJob` will start threads. -/
def launches (config : CpuConfig) (b : CpuBackend) (job : Job) : Bool :=
  config.isEnabled && !b.upToDate config job && (config.profileName job.algorithm).isSome &&
    !(config.get job.algorithm).isEmpty

def setJob (σ : Nonce) (config : CpuConfig) (b : CpuBackend) (job : Job) : Nonce × CpuBackend :=
  if !config.isEnabled then b.stop σ
  else
    let threads := config.get job.algorithm
    if b.upToDate config job then (σ, b)
    else
      let b := { b with
        algo := job.algorithm
        profileName := config.profileName job.algorithm }
      if b.profileName.isNone || threads.isEmpty then b.stop σ
      else
        let (σ, b) := b.stop σ
        (startWorkers σ, { b with threads })

/-! ## What `stop` and `setJob` leave alone -/

variable {σ : Nonce} {config : CpuConfig} {b : CpuBackend} {job : Job}

omit [Features] in
@[simp] theorem stop_paused : (b.stop σ).1.paused = σ.paused := by
  unfold stop
  split <;> rfl

omit [Features] in
@[simp] theorem stop_nonces : (b.stop σ).1.nonces = σ.nonces := by
  unfold stop
  split <;> rfl

omit [Features] in
@[simp] theorem stop_period : (b.stop σ).1.period = σ.period := by
  unfold stop
  split <;> rfl

omit [Features] in
@[simp] theorem stop_threads : (b.stop σ).2.threads = [] := by
  unfold stop
  split
  · assumption
  · rfl

@[simp] theorem setJob_paused : (b.setJob σ config job).1.paused = σ.paused := by
  unfold setJob
  split
  · exact stop_paused
  · dsimp only
    split
    · rfl
    · split <;> exact stop_paused

@[simp] theorem setJob_nonces : (b.setJob σ config job).1.nonces = σ.nonces := by
  unfold setJob
  split
  · exact stop_nonces
  · dsimp only
    split
    · rfl
    · split <;> exact stop_nonces

@[simp] theorem setJob_period : (b.setJob σ config job).1.period = σ.period := by
  unfold setJob
  split
  · exact stop_period
  · dsimp only
    split
    · rfl
    · split <;> exact stop_period

/-- Without a launch no thread runs that did not run before. -/
theorem setJob_threads (h : b.launches config job = false) :
    (b.setJob σ config job).2.threads = b.threads ∨ (b.setJob σ config job).2.threads = [] := by
  unfold setJob
  split
  · exact .inr stop_threads
  · next hen =>
    dsimp only
    split
    · exact .inl rfl
    · next hup =>
      split
      · exact .inr stop_threads
      · next hnone =>
        simp only [launches, Bool.and_eq_false_iff, Bool.not_eq_false'] at h
        simp only [Bool.or_eq_true, not_or, Option.isNone_iff_eq_none, Bool.not_eq_true] at hnone
        simp_all

end CpuBackend

end XLArig
