import XLArig.CpuBackend
import XLArig.Machine

/-!
# XLArig.Miner

`core/Miner`: the main thread's side of mining.  Jobs, the pause commands, the
configuration, the dataset notification and the timer all write the pause flag
and start or stop the threads of the CPU backend.

What the environment answers comes with an event: whether the RandomX dataset is
ready for a job, whether the host is on battery power or in use, and whether a
backend's tick asked for a stop.
-/

namespace XLArig

/-- What the miner reads of `Config`: the CPU section, the two conditions of the
automatic pause and the number of active pools. -/
structure Config where
  cpu : CpuConfig
  isPauseOnBattery : Bool
  isPauseOnActive : Bool
  activePools : Nat

/-- `MinerPrivate`, with the atomics of `Nonce`. -/
structure Miner where
  nonce : Nonce
  backend : CpuBackend
  config : Config
  algorithm : Algorithm
  active : Bool
  batteryPower : Bool
  userActive : Bool
  enabled : Bool
  autoPause : Int
  reset : Bool
  job : Job
  userJobId : CString
  ticks : UInt64

namespace Miner

/-- The miner after its constructor. -/
def init (config : Config) : Miner where
  nonce := Nonce.init
  backend := CpuBackend.init
  config := config
  algorithm := .INVALID
  active := false
  batteryPower := false
  userActive := false
  enabled := true
  autoPause := 0
  reset := true
  job := Job.empty
  userJobId := none
  ticks := 0

/-! ## `handleJobChange` -/

/-- The pause flag is set while mining is disabled. -/
def pauseIfDisabled (s : Miner) : Miner :=
  if s.enabled then s else { s with nonce := s.nonce.pause true }

/-- `Nonce::reset(job.index())`, unless a user job goes on. -/
def resetCounter (s : Miner) : Miner :=
  if s.reset then { s with nonce := s.nonce.reset s.job.index } else s

/-- `backend->setJob(job)`. -/
def setBackendJob [Features] (s : Miner) : Miner :=
  let x := s.backend.setJob s.nonce s.config.cpu s.job
  { s with nonce := x.1, backend := x.2 }

/-- `Nonce::touch()`. -/
def touch (s : Miner) : Miner := { s with nonce := s.nonce.touch }

def unpause (s : Miner) : Miner :=
  if s.active && s.enabled then { s with nonce := s.nonce.pause false } else s

/-- The first job starts the timer. -/
def startTimer (s : Miner) : Miner := if s.ticks = 0 then { s with ticks := s.ticks + 1 } else s

def handleJobChange [Features] (s : Miner) : Miner :=
  s.pauseIfDisabled.resetCounter.setBackendJob.touch.unpause.startTimer

/-! ## Commands -/

def pause (s : Miner) : Miner := touch { s with active := false, nonce := s.nonce.pause true }

def setEnabled (s : Miner) (enabled : Bool) : Miner :=
  if s.enabled == enabled then s
  else if s.batteryPower && enabled then s
  else
    let s := { s with enabled }
    if !s.active then s else touch { s with nonce := s.nonce.pause !enabled }

def stop (s : Miner) : Miner :=
  let x := s.backend.stop s.nonce.stop
  { s with nonce := x.1, backend := x.2 }

/-- `setJob` under the mutex: `job` becomes the job of its index. -/
def store (s : Miner) (job : Job) (donate : Bool) : Miner :=
  let index := if donate then donateIndex else userIndex
  { s with
    algorithm := job.algorithm
    reset := !(s.job.index == donateIndex && index == userIndex && s.userJobId == job.id)
    job := { job with index }
    userJobId := if index = userIndex then job.id else s.userJobId }

/-- `initRX`: only a RandomX job waits for its dataset. -/
def initRX [Features] (s : Miner) (isReady : Bool) : Bool :=
  s.job.algorithm.family != .RANDOM_X || isReady

/-- The threads are stopped before the dataset they use is rebuilt. -/
def prepare [Features] (s : Miner) (job : Job) (wasReady : Bool) : Miner :=
  if job.algorithm.family = .RANDOM_X && !wasReady then s.stop else s

/-- `setJob`; `wasReady` and `isReady` are what `Rx::isReady` and `Rx::init` return. -/
def setJob [Features] (s : Miner) (job : Job) (donate wasReady isReady : Bool) : Miner :=
  let s := { (s.prepare job wasReady).store job donate with active := true }
  if s.initRX isReady then s.handleJobChange else s

/-- `onConfigChanged`; `poolsDiffer` is `config->pools() != previousConfig->pools()`. -/
def onConfigChanged [Features] (s : Miner) (config : Config) (poolsDiffer : Bool) : Miner :=
  let s := { s with config }
  if poolsDiffer && config.activePools > 0 then s else s.setBackendJob

/-- `onDatasetReady`; `isReady` is `Rx::isReady(job())`. -/
def onDatasetReady [Features] (s : Miner) (isReady : Bool) : Miner :=
  if isReady then s.handleJobChange else s

/-! ## The timer -/

/-- The lambda `autoPause` of `onTimer`: `state` and `setState` stand for its
reference to a flag. -/
def applyAutoPause (s : Miner) (state pause : Bool) (setState : Miner → Bool → Miner) : Miner :=
  if state == pause then s
  else
    let s := setState s pause
    let s := { s with autoPause := s.autoPause + if pause then 1 else -1 }
    s.setEnabled (s.autoPause == 0)

/-- `onTimer`; `stopMiner` says that the tick of a backend failed. -/
def onTimer (s : Miner) (stopMiner isOnBatteryPower isUserActive : Bool) : Miner :=
  let s := { s with ticks := s.ticks + 1 }
  let s := if s.config.isPauseOnBattery then
      s.applyAutoPause s.batteryPower isOnBatteryPower fun s b => { s with batteryPower := b }
    else s
  let s := if s.config.isPauseOnActive then
      s.applyAutoPause s.userActive isUserActive fun s b => { s with userActive := b }
    else s
  if stopMiner then s.stop else s

/-! ## The system -/

/-- What happens to the miner: the calls of the main thread, and a worker that
exhausts the nonces and pauses all of them. -/
inductive Event
  | setJob (job : Job) (donate wasReady isReady : Bool)
  | pause
  | setEnabled (enabled : Bool)
  | stop
  | onConfigChanged (config : Config) (poolsDiffer : Bool)
  | onDatasetReady (isReady : Bool)
  | onTimer (stopMiner isOnBatteryPower isUserActive : Bool)
  | exhausted

variable [Features]

/-- The timer only runs after the first job, and only a thread can exhaust the
nonces. -/
def step (s : Miner) : Event → Option Miner
  | .setJob job donate wasReady isReady => some (s.setJob job donate wasReady isReady)
  | .pause => some s.pause
  | .setEnabled enabled => some (s.setEnabled enabled)
  | .stop => some s.stop
  | .onConfigChanged config poolsDiffer => some (s.onConfigChanged config poolsDiffer)
  | .onDatasetReady isReady => some (s.onDatasetReady isReady)
  | .onTimer stopMiner isOnBatteryPower isUserActive =>
      if s.ticks = 0 then none else some (s.onTimer stopMiner isOnBatteryPower isUserActive)
  | .exhausted =>
      if s.backend.threads = [] then none else some { s with nonce := s.nonce.pause true }

def machine : Machine Miner Event where
  init s := ∃ config, s = init config
  step := step

/-! ## Threads only hash while the miner is enabled and active -/

/-- No thread can hash: it is paused, or there is none. -/
def Quiet (s : Miner) : Prop := s.nonce.paused = true ∨ s.backend.threads = []

/-- Enabled and active, or quiet. -/
def Safe (s : Miner) : Prop := (s.enabled = true ∧ s.active = true) ∨ s.Quiet

/-- The job change starts no thread that would run while mining is off: the
miner is enabled and active, the pause flag is up, or no thread is started. -/
def MayLaunch (s : Miner) (config : Config) : Prop :=
  (s.enabled = true ∧ s.active = true) ∨ s.nonce.paused = true ∨
    s.backend.launches config.cpu s.job = false

instance (s : Miner) (config : Config) : Decidable (s.MayLaunch config) :=
  inferInstanceAs (Decidable (_ ∨ _))

/-- A configuration reload and, unless mining is disabled, a dataset
notification find the miner in a state in which threads may be started. -/
def Guarded (s : Miner) : Event → Prop
  | .onConfigChanged config poolsDiffer =>
      poolsDiffer = true ∧ config.activePools > 0 ∨ s.MayLaunch config
  | .onDatasetReady isReady => isReady = true → s.enabled = true → s.MayLaunch s.config
  | _ => True

instance (s : Miner) : (e : Event) → Decidable (s.Guarded e)
  | .onConfigChanged _ _ => inferInstanceAs (Decidable (_ ∨ _))
  | .onDatasetReady _ => inferInstanceAs (Decidable (_ → _))
  | .setJob .. | .pause | .setEnabled _ | .stop | .onTimer .. | .exhausted =>
      inferInstanceAs (Decidable True)

variable {s s' : Miner}

/-! ### Job changes -/

@[simp] theorem setBackendJob_paused : s.setBackendJob.nonce.paused = s.nonce.paused :=
  CpuBackend.setJob_paused

@[simp] theorem handleJobChange_enabled : s.handleJobChange.enabled = s.enabled := by
  unfold handleJobChange startTimer unpause pauseIfDisabled resetCounter
  split_ifs <;> rfl

@[simp] theorem handleJobChange_active : s.handleJobChange.active = s.active := by
  unfold handleJobChange startTimer unpause pauseIfDisabled resetCounter
  split_ifs <;> rfl

/-- A job change raises the pause flag while mining is disabled and takes it down
while the miner mines; otherwise the flag stays. -/
theorem handleJobChange_paused : s.handleJobChange.nonce.paused =
    if s.active && s.enabled then false else s.nonce.paused || !s.enabled := by
  have hreset : ∀ t : Miner, t.resetCounter.nonce.paused = t.nonce.paused := by
    intro t
    unfold resetCounter
    split <;> rfl
  have hpause : s.pauseIfDisabled.nonce.paused = (s.nonce.paused || !s.enabled) := by
    unfold pauseIfDisabled
    cases s.enabled <;> simp [Nonce.pause]
  have htouch : s.pauseIfDisabled.resetCounter.setBackendJob.touch.nonce.paused =
      (s.nonce.paused || !s.enabled) := by
    show s.pauseIfDisabled.resetCounter.setBackendJob.nonce.paused = _
    rw [setBackendJob_paused, hreset, hpause]
  have hstart : ∀ t : Miner, t.startTimer.nonce = t.nonce := by
    intro t
    unfold startTimer
    split <;> rfl
  have hkeep : s.pauseIfDisabled.resetCounter.setBackendJob.touch.active = s.active ∧
      s.pauseIfDisabled.resetCounter.setBackendJob.touch.enabled = s.enabled := by
    unfold pauseIfDisabled resetCounter
    split_ifs <;> exact ⟨rfl, rfl⟩
  unfold handleJobChange
  rw [hstart, unpause, hkeep.1, hkeep.2]
  split
  · rfl
  · exact htouch

/-- Without a launch a job change leaves the threads, or stops them. -/
theorem handleJobChange_threads (h : s.backend.launches s.config.cpu s.job = false) :
    s.handleJobChange.backend.threads = s.backend.threads ∨
      s.handleJobChange.backend.threads = [] := by
  have hthreads : ∃ σ, s.handleJobChange.backend.threads =
      (s.backend.setJob σ s.config.cpu s.job).2.threads := by
    unfold handleJobChange startTimer unpause pauseIfDisabled resetCounter
    split_ifs <;> exact ⟨_, rfl⟩
  obtain ⟨σ, hσ⟩ := hthreads
  rw [hσ]
  exact CpuBackend.setJob_threads h

theorem safe_handleJobChange (hsafe : s.Safe) (hmay : s.enabled = true → s.MayLaunch s.config) :
    s.handleJobChange.Safe := by
  unfold Safe Quiet
  rw [handleJobChange_enabled, handleJobChange_active, handleJobChange_paused]
  cases hen : s.enabled with
  | false => exact .inr (.inl (by simp))
  | true =>
      cases hac : s.active with
      | true => exact .inl ⟨rfl, rfl⟩
      | false =>
          have hquiet : s.Quiet := by
            cases hsafe with
            | inl h => rw [hac] at h; exact absurd h.2 (by decide)
            | inr h => exact h
          refine .inr ?_
          simp only [Bool.and_true, Bool.false_eq_true, if_false, Bool.not_true, Bool.or_false]
          cases hmay hen with
          | inl h => rw [hac] at h; exact absurd h.2 (by decide)
          | inr h =>
              cases h with
              | inl h => exact .inl h
              | inr h =>
                  cases hquiet with
                  | inl hp => exact .inl hp
                  | inr ht =>
                      cases handleJobChange_threads h with
                      | inl hsame => exact .inr (hsame.trans ht)
                      | inr hnone => exact .inr hnone

theorem safe_setBackendJob (hsafe : s.Safe) (hmay : s.MayLaunch s.config) :
    s.setBackendJob.Safe := by
  cases hmay with
  | inl h => exact .inl h
  | inr h =>
      cases h with
      | inl h => exact .inr (.inl (setBackendJob_paused.trans h))
      | inr h =>
          cases hsafe with
          | inl hon => exact .inl hon
          | inr hquiet =>
              cases hquiet with
              | inl hp => exact .inr (.inl (setBackendJob_paused.trans hp))
              | inr ht =>
                  cases CpuBackend.setJob_threads (σ := s.nonce) h with
                  | inl hsame => exact .inr (.inr (hsame.trans ht))
                  | inr hnone => exact .inr (.inr hnone)

/-! ### Commands -/

omit [Features] in
theorem safe_stop : s.stop.Safe := .inr (.inr CpuBackend.stop_threads)

omit [Features] in
theorem safe_setEnabled (hsafe : s.Safe) (enabled : Bool) : (s.setEnabled enabled).Safe := by
  unfold setEnabled
  split
  · exact hsafe
  · split
    · exact hsafe
    · next hbattery =>
      dsimp only
      cases hac : s.active with
      | false =>
          have hquiet : s.Quiet := by
            cases hsafe with
            | inl h => rw [hac] at h; exact absurd h.2 (by decide)
            | inr h => exact h
          exact .inr hquiet
      | true =>
          cases enabled with
          | true => exact .inl ⟨rfl, rfl⟩
          | false => exact .inr (.inl rfl)

omit [Features] in
theorem safe_applyAutoPause (hsafe : s.Safe) (state pause : Bool) (setState : Miner → Bool → Miner)
    (hset : ∀ b, (setState s b).Safe) : (s.applyAutoPause state pause setState).Safe := by
  unfold applyAutoPause
  split
  · exact hsafe
  · have hcount : Safe { setState s pause with
        autoPause := (setState s pause).autoPause + if pause then 1 else -1 } := hset pause
    exact safe_setEnabled hcount _

omit [Features] in
theorem safe_onTimer (hsafe : s.Safe) (stopMiner battery user : Bool) :
    (s.onTimer stopMiner battery user).Safe := by
  have hticks : Safe { s with ticks := s.ticks + 1 } := hsafe
  have hbattery : ∀ t : Miner, t.Safe → Safe (if t.config.isPauseOnBattery then
      t.applyAutoPause t.batteryPower battery fun s b => { s with batteryPower := b } else t) := by
    intro t ht
    split
    · exact safe_applyAutoPause ht _ _ _ fun _ => ht
    · exact ht
  have huser : ∀ t : Miner, t.Safe → Safe (if t.config.isPauseOnActive then
      t.applyAutoPause t.userActive user fun s b => { s with userActive := b } else t) := by
    intro t ht
    split
    · exact safe_applyAutoPause ht _ _ _ fun _ => ht
    · exact ht
  unfold onTimer
  dsimp only
  split
  · exact safe_stop
  · exact huser _ (hbattery _ hticks)

/-- A new job activates the miner, so only a disabled one must stay quiet. -/
theorem safe_setJob (hsafe : s.Safe) (job : Job) (donate wasReady isReady : Bool) :
    (s.setJob job donate wasReady isReady).Safe := by
  have hprepare : (s.prepare job wasReady).Safe := by
    unfold prepare
    split
    · exact safe_stop
    · exact hsafe
  have hstore : Safe { (s.prepare job wasReady).store job donate with active := true } := by
    cases hprepare with
    | inl h => exact .inl ⟨h.1, rfl⟩
    | inr h => exact .inr h
  unfold setJob
  dsimp only
  split
  · exact safe_handleJobChange hstore fun hen => .inl ⟨hen, rfl⟩
  · exact hstore

/-! ### Runs -/

theorem safe_step {e : Event} (hsafe : s.Safe) (hg : s.Guarded e) (h : step s e = some s') :
    s'.Safe := by
  cases e with
  | setJob job donate wasReady isReady =>
      obtain rfl := Option.some.inj h
      exact safe_setJob hsafe job donate wasReady isReady
  | pause =>
      obtain rfl := Option.some.inj h
      exact .inr (.inl rfl)
  | setEnabled enabled =>
      obtain rfl := Option.some.inj h
      exact safe_setEnabled hsafe enabled
  | stop =>
      obtain rfl := Option.some.inj h
      exact safe_stop
  | onConfigChanged config poolsDiffer =>
      obtain rfl := Option.some.inj h
      have hconfig : Safe { s with config } := hsafe
      unfold onConfigChanged
      dsimp only
      split
      · exact hconfig
      · next hgo =>
        apply safe_setBackendJob hconfig
        cases hg with
        | inl h => simp [h.1, h.2] at hgo
        | inr h => exact h
  | onDatasetReady isReady =>
      obtain rfl := Option.some.inj h
      unfold onDatasetReady
      split
      · next hready => exact safe_handleJobChange hsafe (hg hready)
      · exact hsafe
  | onTimer stopMiner battery user =>
      simp only [step, Option.ite_none_left_eq_some, Option.some.injEq] at h
      obtain ⟨-, rfl⟩ := h
      exact safe_onTimer hsafe stopMiner battery user
  | exhausted =>
      simp only [step, Option.ite_none_left_eq_some, Option.some.injEq] at h
      obtain ⟨-, rfl⟩ := h
      exact .inr (.inl rfl)

/-- **No thread hashes unless the miner is enabled and active**, in every run in
which a configuration reload or a dataset notification that starts threads finds
the miner on or paused. -/
theorem quiet_of_off (h : machine.ReachableIf Guarded s)
    (hoff : s.enabled = false ∨ s.active = false) :
    s.nonce.paused = true ∨ s.backend.threads = [] ∨ s.nonce.sequence .CPU = 0 := by
  have hsafe : s.Safe := by
    apply h.invariant
    · rintro t ⟨config, rfl⟩
      exact .inr (.inl rfl)
    · exact fun _ _ _ hs hg hstep => safe_step hs hg hstep
  cases hsafe with
  | inl hon =>
      rw [hon.1, hon.2] at hoff
      simp at hoff
  | inr hquiet =>
      cases hquiet with
      | inl hp => exact .inl hp
      | inr ht => exact .inr (.inl ht)

/-! ## Counters -/

/-- The job an event makes the miner's job, and whether its counter is reset. -/
def publishes (s : Miner) : Event → Option (Job × Bool)
  | .setJob job donate wasReady isReady =>
      let t := (s.prepare job wasReady).store job donate
      some (t.job, t.initRX isReady && t.reset)
  | .onDatasetReady isReady => if isReady then some (s.job, s.reset) else none
  | _ => none

/-- The miner's job is `job`, and the counters are those of `σ`. -/
structure Shows (s : Miner) (job : Job) (σ : Nonce) : Prop where
  job : s.job = job
  nonces : s.nonce.nonces = σ.nonces
  period : s.nonce.period = σ.period

theorem shows_handleJobChange :
    s.handleJobChange.Shows s.job (if s.reset then s.nonce.reset s.job.index else s.nonce) := by
  have hsame : s.pauseIfDisabled.job = s.job ∧ s.pauseIfDisabled.reset = s.reset ∧
      s.pauseIfDisabled.nonce.nonces = s.nonce.nonces ∧
      s.pauseIfDisabled.nonce.period = s.nonce.period := by
    unfold pauseIfDisabled
    split <;> exact ⟨rfl, rfl, rfl, rfl⟩
  have hreset : s.pauseIfDisabled.resetCounter.Shows s.job
      (if s.reset then s.nonce.reset s.job.index else s.nonce) := by
    unfold resetCounter
    rw [hsame.2.1]
    split
    · constructor
      · exact hsame.1
      · simp only [Nonce.reset, hsame.1, hsame.2.2.1]
      · simp only [Nonce.reset, hsame.1, hsame.2.2.2]
    · exact ⟨hsame.1, hsame.2.2.1, hsame.2.2.2⟩
  have htouch : s.pauseIfDisabled.resetCounter.setBackendJob.touch.Shows s.job
      (if s.reset then s.nonce.reset s.job.index else s.nonce) :=
    ⟨hreset.job, CpuBackend.setJob_nonces.trans hreset.nonces,
      CpuBackend.setJob_period.trans hreset.period⟩
  generalize (if s.reset then s.nonce.reset s.job.index else s.nonce) = σ at htouch ⊢
  unfold handleJobChange startTimer unpause
  split_ifs <;> exact ⟨htouch.job, htouch.nonces, htouch.period⟩

omit [Features] in
private theorem shows_setEnabled (enabled : Bool) : (s.setEnabled enabled).Shows s.job s.nonce := by
  unfold setEnabled
  dsimp only
  split_ifs <;> exact ⟨rfl, rfl, rfl⟩

omit [Features] in
private theorem shows_stop : s.stop.Shows s.job s.nonce :=
  ⟨rfl, CpuBackend.stop_nonces, CpuBackend.stop_period⟩

omit [Features] in
private theorem Shows.trans {t : Miner} {job : Job} {σ : Nonce} (h : t.Shows s.job s.nonce)
    (h' : s.Shows job σ) : t.Shows job σ :=
  ⟨h.job.trans h'.job, h.nonces.trans h'.nonces, h.period.trans h'.period⟩

omit [Features] in
private theorem shows_onTimer (stopMiner battery user : Bool) :
    (s.onTimer stopMiner battery user).Shows s.job s.nonce := by
  have hauto : ∀ (t : Miner) (state pause : Bool) (setState : Miner → Bool → Miner),
      (∀ b, (setState t b).Shows t.job t.nonce) →
      (t.applyAutoPause state pause setState).Shows t.job t.nonce := by
    intro t state pause setState hset
    unfold applyAutoPause
    split
    · exact ⟨rfl, rfl, rfl⟩
    · have hcount : Shows { setState t pause with
          autoPause := (setState t pause).autoPause + if pause then 1 else -1 } t.job t.nonce :=
        ⟨(hset pause).job, (hset pause).nonces, (hset pause).period⟩
      exact (shows_setEnabled _).trans hcount
  have hbattery : ∀ t : Miner, Shows (if t.config.isPauseOnBattery then
      t.applyAutoPause t.batteryPower battery fun s b => { s with batteryPower := b } else t)
        t.job t.nonce := by
    intro t
    split
    · exact hauto t _ _ _ fun _ => ⟨rfl, rfl, rfl⟩
    · exact ⟨rfl, rfl, rfl⟩
  have huser : ∀ t : Miner, Shows (if t.config.isPauseOnActive then
      t.applyAutoPause t.userActive user fun s b => { s with userActive := b } else t)
        t.job t.nonce := by
    intro t
    split
    · exact hauto t _ _ _ fun _ => ⟨rfl, rfl, rfl⟩
    · exact ⟨rfl, rfl, rfl⟩
  have hticks : Shows { s with ticks := s.ticks + 1 } s.job s.nonce := ⟨rfl, rfl, rfl⟩
  unfold onTimer
  dsimp only
  split
  · exact shows_stop.trans ((huser _).trans ((hbattery _).trans hticks))
  · exact (huser _).trans ((hbattery _).trans hticks)

/-- The counters and the job after a step of the main thread. -/
theorem step_publishes {e : Event} (h : step s e = some s') :
    match s.publishes e with
    | some (job, reset) =>
        s'.Shows job (if reset then s.nonce.reset job.index else s.nonce)
    | none => s'.Shows s.job s.nonce := by
  cases e with
  | setJob job donate wasReady isReady =>
      obtain rfl := Option.some.inj h
      have hprepare : (s.prepare job wasReady).nonce.nonces = s.nonce.nonces ∧
          (s.prepare job wasReady).nonce.period = s.nonce.period := by
        unfold prepare
        split
        · exact ⟨shows_stop.nonces, shows_stop.period⟩
        · exact ⟨rfl, rfl⟩
      let t : Miner := { (s.prepare job wasReady).store job donate with active := true }
      have hreset : Nonce.nonces (t.nonce.reset t.job.index) =
            Nonce.nonces (s.nonce.reset t.job.index) ∧
          Nonce.period (t.nonce.reset t.job.index) = Nonce.period (s.nonce.reset t.job.index) := by
        constructor
        · show Function.update (s.prepare job wasReady).nonce.nonces _ _ = _
          rw [hprepare.1]
          rfl
        · show Function.update (s.prepare job wasReady).nonce.period _ _ = _
          simp only [t, store, Nonce.reset, hprepare.2]
      simp only [publishes]
      show Miner.Shows (if t.initRX isReady then t.handleJobChange else t) t.job
        (if t.initRX isReady && t.reset then s.nonce.reset t.job.index else s.nonce)
      cases hready : t.initRX isReady with
      | false => exact ⟨rfl, hprepare.1, hprepare.2⟩
      | true =>
          have hshow := shows_handleJobChange (s := t)
          cases hr : t.reset with
          | false =>
              rw [hr] at hshow
              exact ⟨hshow.job, hshow.nonces.trans hprepare.1, hshow.period.trans hprepare.2⟩
          | true =>
              rw [hr] at hshow
              exact ⟨hshow.job, hshow.nonces.trans hreset.1, hshow.period.trans hreset.2⟩
  | pause =>
      obtain rfl := Option.some.inj h
      exact ⟨rfl, rfl, rfl⟩
  | setEnabled enabled =>
      obtain rfl := Option.some.inj h
      exact shows_setEnabled enabled
  | stop =>
      obtain rfl := Option.some.inj h
      exact shows_stop
  | onConfigChanged config poolsDiffer =>
      obtain rfl := Option.some.inj h
      simp only [publishes]
      unfold onConfigChanged
      dsimp only
      split
      · exact ⟨rfl, rfl, rfl⟩
      · exact ⟨rfl, CpuBackend.setJob_nonces, CpuBackend.setJob_period⟩
  | onDatasetReady isReady =>
      obtain rfl := Option.some.inj h
      simp only [publishes]
      unfold onDatasetReady
      cases isReady with
      | true => exact shows_handleJobChange
      | false => exact ⟨rfl, rfl, rfl⟩
  | onTimer stopMiner battery user =>
      simp only [step, Option.ite_none_left_eq_some, Option.some.injEq] at h
      obtain ⟨-, rfl⟩ := h
      exact shows_onTimer stopMiner battery user
  | exhausted =>
      simp only [step, Option.ite_none_left_eq_some, Option.some.injEq] at h
      obtain ⟨-, rfl⟩ := h
      exact ⟨rfl, rfl, rfl⟩

end Miner

end XLArig

namespace XLArig.Miner

/-! ### Runs -/

/-- A configuration with `threads` threads for every algorithm. -/
def sample (threads : Nat) : Config where
  cpu :=
    { isEnabled := true
      get := fun algorithm =>
        List.replicate threads ⟨algorithm, .AUTO, false, true, true, true, 550, -1, -1, threads, 1⟩
      profileName := fun _ => some (bytes "*") }
  isPauseOnBattery := true
  isPauseOnActive := false
  activePools := 1

theorem init_sample (threads : Nat) : machine.init (init (sample threads)) := ⟨_, rfl⟩

/-- A reload while the user has paused, with threads that wait for the flag. -/
theorem quiet_of_off_paused : ∃ s : Miner, s.backend.threads.length = 1 ∧
    (s.nonce.paused = true ∨ s.backend.threads = [] ∨ s.nonce.sequence .CPU = 0) := by
  let events : List Event := [.setJob (.sample "1") false false true, .setEnabled false,
    .onConfigChanged (sample 1) false, .onTimer false true false]
  have hm : machine.Meets Guarded (init (sample 1)) events := by decide
  have hrun : (machine.run (init (sample 1)) events).any
      (fun s => decide (s.backend.threads.length = 1 ∧ s.enabled = false)) = true := by decide
  obtain ⟨s, hs, hp⟩ := Machine.ReachableIf.exists_of_run (init_sample 1) hm hrun
  obtain ⟨hlen, hoff⟩ := of_decide_eq_true hp
  exact ⟨s, hlen, quiet_of_off hs (.inl hoff)⟩

/-- **A disabled miner hashes.**  `stop` takes the pause flag down; the next
configuration reload starts the threads, and nothing pauses them. -/
theorem hashes_while_disabled : ∃ s : Miner, machine.Reachable s ∧ s.enabled = false ∧
    ¬ (s.nonce.paused = true ∨ s.backend.threads = [] ∨ s.nonce.sequence .CPU = 0) := by
  have hrun : (machine.run (init (sample 1)) [.setJob (.sample "1") false false true,
      .setEnabled false, .stop, .onConfigChanged (sample 1) false]).any
      (fun s => decide (s.enabled = false ∧
        ¬ (s.nonce.paused = true ∨ s.backend.threads = [] ∨ s.nonce.sequence .CPU = 0))) = true := by
    decide
  obtain ⟨s, hs, hp⟩ := Machine.Reachable.exists_of_run (init_sample 1) hrun
  exact ⟨s, hs, of_decide_eq_true hp⟩

end XLArig.Miner
