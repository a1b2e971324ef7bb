import XLArig.CpuWorker

/-!
# XLArig.Threads

The main thread and the threads of the CPU backend, one shared access at a time.

A call of `Miner` is a list of actions, each of which reads or writes the shared
atomics or the miner's job once.  Between two actions any worker may move.  A call
that stops the backend waits until every worker has left `CpuWorker::start`; a
call that starts it creates the workers anew.  Run without workers in between, the
actions are the functions of `XLArig.Miner` (`XLArig.Threads.Calls`).
-/

namespace XLArig

/-- What the main thread does next. -/
inductive Action
  | pauseIfDisabled
  | resetCounter
  | setBackendJob
  | touch
  | unpause
  | startTimer
  | store (job : Job) (donate isReady : Bool)
  | deactivate
  | setEnabled (enabled : Bool)
  | clearPause
  | stopSequences
  | stopBackend
  | launch (threads : List CpuLaunchData)

/-- The calls of `Miner`. -/
inductive Call
  | setJob (job : Job) (donate wasReady isReady : Bool)
  | onDatasetReady (isReady : Bool)
  | onConfigChanged (config : Config) (poolsDiffer : Bool)
  | setEnabled (enabled : Bool)
  | pause
  | stop

/-- The main thread between two of its actions, and the workers.  `joining` says
that `Workers::stop` waits for the workers, `stored` that a job was stored and the
sequence not touched since, `handled` that `handleJobChange` has completed for the
miner's job; the lists keep what the workers were granted, hashed and submitted,
the newest first. -/
structure Threads [Features] [Hasher] (ι : Type*) (N : ι → Nat) where
  miner : Miner
  todo : List Action
  joining : Bool
  stored : Bool
  handled : Bool
  worker : (w : ι) → CpuWorker (N w)
  granted : List (ι × Grant)
  hashed : List (ι × Hashed)
  submitted : List (ι × Submission)

namespace Threads

variable [Features] [Hasher] {ι : Type*} {N : ι → Nat}

/-! ## The main thread -/

/-- `handleJobChange`. -/
def handleJobChange : List Action :=
  [.pauseIfDisabled, .resetCounter, .setBackendJob, .touch, .unpause, .startTimer]

/-- `Miner::stop`. -/
def stop : List Action := [.clearPause, .stopSequences]

/-- The actions a call is made of, and what it writes if it makes no shared access. -/
def Call.start (s : Miner) : Call → Miner × List Action
  | .setJob job donate wasReady isReady =>
      (s, (if job.algorithm.family = .RANDOM_X && !wasReady then stop else []) ++
        [.store job donate isReady])
  | .onDatasetReady isReady => (s, if isReady then handleJobChange else [])
  | .onConfigChanged config poolsDiffer =>
      ({ s with config },
        if poolsDiffer && config.activePools > 0 then [] else [.setBackendJob])
  | .setEnabled enabled =>
      if s.enabled == enabled then (s, [])
      else if s.batteryPower && enabled then (s, [])
      else if !s.active then ({ s with enabled }, [])
      else (s, [.setEnabled enabled, .touch])
  | .pause => (s, [.deactivate, .touch])
  | .stop => (s, stop)

/-- `CpuBackend::setJob` up to the threads it stops and starts. -/
def setBackendJob (s : Miner) : Miner × List Action :=
  let threads := s.config.cpu.get s.job.algorithm
  let profileName := s.config.cpu.profileName s.job.algorithm
  if !s.config.cpu.isEnabled then (s, [.stopBackend])
  else if s.backend.upToDate s.config.cpu s.job then (s, [])
  else
    ({ s with
        backend := { s.backend with
          algo := s.job.algorithm
          profileName } },
      if profileName.isNone || threads.isEmpty then [.stopBackend]
      else [.stopBackend, .launch threads])

/-- One action, taken from the front of `todo`. -/
def exec (s : Threads ι N) : Action → Threads ι N
  | .pauseIfDisabled => { s with
      miner := s.miner.pauseIfDisabled
      handled := false }
  | .resetCounter => { s with
      miner := s.miner.resetCounter
      handled := false }
  | .setBackendJob =>
      let (miner, actions) := setBackendJob s.miner
      { s with
        miner
        todo := actions ++ s.todo }
  | .touch => { s with
      miner := s.miner.touch
      stored := false }
  | .unpause => { s with
      miner := s.miner.unpause
      handled := true }
  | .startTimer => { s with miner := s.miner.startTimer }
  | .store job donate isReady =>
      let miner := { s.miner.store job donate with active := true }
      { s with
        miner
        todo := (if miner.initRX isReady then handleJobChange else []) ++ s.todo
        stored := true
        handled := false }
  | .deactivate => { s with
      miner := { s.miner with
        active := false
        nonce := s.miner.nonce.pause true } }
  | .setEnabled enabled => { s with
      miner := { s.miner with
        enabled
        nonce := s.miner.nonce.pause !enabled } }
  | .clearPause => { s with miner := { s.miner with nonce := s.miner.nonce.pause false } }
  | .stopSequences => { s with
      miner := { s.miner with nonce := { s.miner.nonce with sequence := fun _ => 0 } }
      todo := .stopBackend :: s.todo }
  | .stopBackend =>
      if s.miner.backend.threads = [] then s
      else { s with
        miner := { s.miner with nonce := s.miner.nonce.stopBackend .CPU }
        joining := true }
  | .launch threads => { s with
      miner := { s.miner with
        nonce := CpuBackend.startWorkers s.miner.nonce
        backend := { s.miner.backend with threads } }
      stored := false
      worker := fun _ => CpuWorker.launch s.miner.backend.algo }

/-- The workers have ended: their threads are deleted, and the sequence is touched. -/
def join (s : Threads ι N) : Threads ι N :=
  { s with
    miner := { s.miner with
      nonce := s.miner.nonce.touchBackend .CPU
      backend := { s.miner.backend with threads := [] } }
    joining := false
    stored := false }

/-- No thread is left. -/
def Ended (s : Threads ι N) : Prop := ∀ w, (s.worker w).pc = .done

instance [Fintype ι] (s : Threads ι N) : Decidable s.Ended := inferInstanceAs (Decidable (∀ _, _))

/-! ## The system -/

/-- What happens: the main thread starts a call or takes the next action of the one
it is in, or a worker takes a step. -/
inductive Event (ι : Type*)
  | call (c : Call)
  | main
  | worker (w : ι) (answer : Bool)

/-- Worker `w` takes its step. -/
def workerStep [DecidableEq ι] (s : Threads ι N) (w : ι) (answer : Bool) :
    Option (Threads ι N) :=
  ((s.worker w).step s.miner answer).map fun (σ, wj, trace) =>
    { s with
      miner := { s.miner with nonce := σ }
      worker := Function.update s.worker w wj
      granted := trace.granted.map (w, ·) ++ s.granted
      hashed := trace.hashed.map (w, ·) ++ s.hashed
      submitted := trace.submitted.map (w, ·) ++ s.submitted }

/-- The next action of the main thread; it waits while workers are joined. -/
def mainStep [Fintype ι] (s : Threads ι N) : Option (Threads ι N) :=
  if s.joining then if s.Ended then some s.join else none
  else
    match s.todo with
    | [] => none
    | action :: todo => some ({ s with todo }.exec action)

def step [Fintype ι] [DecidableEq ι] (s : Threads ι N) : Event ι → Option (Threads ι N)
  | .call c =>
      if s.joining = false ∧ s.todo = [] then
        let (miner, todo) := Call.start s.miner c
        some { s with
          miner
          todo }
      else none
  | .main => s.mainStep
  | .worker w answer => s.workerStep w answer

/-- The miner before its first job. -/
def init (config : Config) : Threads ι N where
  miner := .init config
  todo := []
  joining := false
  stored := false
  handled := true
  worker := fun _ => (CpuWorker.init .INVALID).goto .done
  granted := []
  hashed := []
  submitted := []

def machine (ι : Type*) [Fintype ι] [DecidableEq ι] (N : ι → Nat) :
    Machine (Threads ι N) (Event ι) where
  init s := ∃ config, s = init config
  step := step

/-! ## One step -/

section Step

variable [Fintype ι] [DecidableEq ι] {s s' : Threads ι N} {todo : List Action} {a : Action}
variable {w : ι} {answer : Bool} {e : Event ι}

theorem step_call (hjoin : s.joining = false) (htodo : s.todo = []) (c : Call) :
    step s (.call c) = some { s with
      miner := (Call.start s.miner c).1
      todo := (Call.start s.miner c).2 } := if_pos ⟨hjoin, htodo⟩

omit [DecidableEq ι] in
theorem mainStep_exec (hjoin : s.joining = false) (htodo : s.todo = a :: todo) :
    s.mainStep = some (exec { s with todo } a) := by
  unfold mainStep
  rw [hjoin, htodo]
  rfl

omit [DecidableEq ι] in
theorem mainStep_join (hjoin : s.joining = true) (hended : s.Ended) :
    s.mainStep = some s.join := by
  unfold mainStep
  rw [if_pos hjoin, if_pos hended]

omit [Fintype ι] in
theorem workerStep_eq (h : s.workerStep w answer = some s') :
    ∃ x, (s.worker w).step s.miner answer = some x ∧ s' = { s with
      miner := { s.miner with nonce := x.1 }
      worker := Function.update s.worker w x.2.1
      granted := x.2.2.granted.map (w, ·) ++ s.granted
      hashed := x.2.2.hashed.map (w, ·) ++ s.hashed
      submitted := x.2.2.submitted.map (w, ·) ++ s.submitted } := by
  simp only [workerStep, Option.map_eq_some_iff] at h
  obtain ⟨x, hx, rfl⟩ := h
  exact ⟨x, hx, rfl⟩

/-- The main thread starts a call, takes an action or ends its wait, or a worker
moves. -/
theorem step_cases (h : step s e = some s') :
    (∃ c, e = .call c ∧ s.joining = false ∧ s.todo = [] ∧ s' = { s with
        miner := (Call.start s.miner c).1
        todo := (Call.start s.miner c).2 }) ∨
      (∃ a todo, e = .main ∧ s.joining = false ∧ s.todo = a :: todo ∧
        s' = exec { s with todo } a) ∨
      (e = .main ∧ s.joining = true ∧ s.Ended ∧ s' = s.join) ∨
      ∃ w answer, e = .worker w answer ∧ s.workerStep w answer = some s' := by
  cases e with
  | call c =>
      simp only [step, Option.ite_none_right_eq_some, Option.some.injEq] at h
      exact .inl ⟨c, rfl, h.1.1, h.1.2, h.2.symm⟩
  | main =>
      refine .inr ?_
      simp only [step, mainStep] at h
      cases hjoin : s.joining with
      | true =>
          simp only [hjoin, if_true, Option.ite_none_right_eq_some, Option.some.injEq] at h
          exact .inr (.inl ⟨rfl, rfl, h.1, h.2.symm⟩)
      | false =>
          simp only [hjoin, Bool.false_eq_true, if_false] at h
          cases htodo : s.todo with
          | nil => rw [htodo] at h; contradiction
          | cons a todo =>
              rw [htodo] at h
              exact .inl ⟨a, todo, rfl, rfl, rfl, (Option.some.inj h).symm⟩
  | worker w answer => exact .inr (.inr (.inr ⟨w, answer, rfl, h⟩))

end Step

end Threads

end XLArig
