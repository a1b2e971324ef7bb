import XLArig.Threads

/-!
# XLArig.Threads.Sequence

The sequence numbers that tell a worker of a new job and of a stop.

A worker records the sequence number after it has copied the miner's job, in another
step, and it is up to date while the two are equal.  The value 0 says that the backend
stops, and a worker that is between its check and its record may record it.  So two
steps that come between decide: a job that is stored and touched after the copy, and a
stop after the check.  Where they do not come, a worker that is up to date has the
miner's job (`current_of_passes`), and every worker notices a stop (`notices_stop`).
-/

namespace XLArig

/-- The thread has a copy of the miner's job that it has not added. -/
def Pc.adds : Pc → Bool
  | .add _ => true
  | _ => false

/-- The thread has found that the backend does not stop, and will copy the miner's job
or add its copy. -/
def Pc.consumes : Pc → Bool
  | .copy _ | .add _ => true
  | _ => false

namespace CpuWorker

variable [Features] [Hasher] {N : Nat} {s : Miner} {w w' : CpuWorker N} {answer : Bool}
variable {x : Nonce × CpuWorker N × Trace}

/-! ## One worker -/

omit [Hasher] in
/-- The scratchpad of a worker that passed its self-test is neither empty nor that of
KawPow. -/
theorem l3_of_selfTest {a : Algorithm} (h : selfTest N a = true) : a.l3 ≠ 0 ∧ a.l3 ≠ 32768 := by
  unfold selfTest at h
  cases hf : a.family with
  | UNKNOWN | KAWPOW => simp [hf] at h
  | CN | CN_LITE | CN_HEAVY | CN_PICO | ASTROBWT => simp [Algorithm.l3, hf]
  | RANDOM_X | ARGON2 =>
      simp only [Algorithm.l3, hf]
      cases a <;> simp [Algorithm.family, Algorithm.Family.ifBuilt] at hf ⊢ <;> split at hf <;>
        contradiction

/-- A step that records nothing: the job is kept, but for an 8-byte nonce. -/
structure Records (w w' : CpuWorker N) : Prop where
  selfTest : w'.algorithm = w.algorithm
  sequence : w'.job.sequence = w.job.sequence
  index : w'.job.index = w.job.index
  algorithm : w'.job.currentJob.algorithm = w.job.currentJob.algorithm
  jobs : w.job.currentJob.nonceSize ≠ 8 → w'.job.jobs = w.job.jobs
  others : ∀ k ≠ w.job.index, w'.job.jobs k = w.job.jobs k
  held : ∀ k, (w'.slots k).held = (w.slots k).held

theorem Records.slot (h : w.Records w') : w'.slot.held = w.slot.held := by
  rw [CpuWorker.slot, h.held, h.index]
  rfl

theorem Records.currentJob (h : w.Records w') (hsize : w.job.currentJob.nonceSize ≠ 8) :
    w'.job.currentJob = w.job.currentJob := by
  rw [WorkerJob.currentJob, h.jobs hsize, h.index]
  rfl

theorem held_nextRound (σ : Nonce) (w : CpuWorker N) (k : Fin 2) :
    ((w.nextRound σ).2.1.slots k).held = (w.slots k).held := by
  unfold nextRound
  dsimp only
  split
  · by_cases hk : k = w.job.index
    · subst hk
      simp [Slot.renew, slot]
    · simp [hk]
  · rfl

theorem held_body (σ : Nonce) (w : CpuWorker N) (valid : Bool) (k : Fin 2) :
    ((w.body σ valid).2.1.slots k).held = (w.slots k).held := by
  have h := held_nextRound σ (w.hashBefore valid) k
  rw [hashBefore_slots] at h
  unfold body
  generalize (w.hashBefore valid).nextRound σ = y at h ⊢
  obtain ⟨σ', w', granted, _ | _⟩ := y
  · exact h
  · rw [← h]
    exact congrArg (fun slots : Fin 2 → Slot => (slots k).held) hashAfter_slots

/-- A step keeps the sequence numbers, and it adds a job or records nothing. -/
theorem step_records (hs : w.step s answer = some x) : s.nonce.Keeps x.1 ∧
    ((∃ asleep, w.pc = .add asleep ∧ x = w.add s.nonce asleep) ∨ w.Records x.2.1) := by
  obtain ⟨w', rfl, hkeeps⟩ | ⟨asleep, hpc, rfl⟩ | ⟨hpc, rfl⟩ := step_cases hs
  · refine ⟨.refl _, .inr ?_⟩
    exact
      { selfTest := hkeeps.algorithm
        sequence := congrArg WorkerJob.sequence hkeeps.job
        index := congrArg WorkerJob.index hkeeps.job
        algorithm := congrArg (fun j => j.currentJob.algorithm) hkeeps.job
        jobs := fun _ => congrArg WorkerJob.jobs hkeeps.job
        others := fun k _ => congrArg (fun j => WorkerJob.jobs j k) hkeeps.job
        held := fun k => congrArg (fun slots : Fin 2 → Slot => (slots k).held) hkeeps.slots }
  · refine ⟨?_, .inl ⟨asleep, hpc, rfl⟩⟩
    rw [add_fst]
    cases hsaves : w.job.saves w.next with
    | false =>
        rw [(WorkerJob.add_keeps hsaves ..).1]
        exact .refl _
    | true =>
        rw [WorkerJob.add_saves hsaves, WorkerJob.save_fst]
        exact Nonce.keeps_requests N
  · have hsame := WorkerJob.sameJob_nextRound s.nonce w.job reserveCount 1
    refine ⟨?_, .inr ?_⟩
    · rw [body_fst]
      by_cases hb : w.job.atBoundary reserveCount
      · rw [(WorkerJob.nextRound_requests _ 1 hb).1]
        exact Nonce.keeps_requestsWhile N
      · rw [(WorkerJob.nextRound_walks _ 1 hb).1]
        exact .refl _
    · exact
        { selfTest := body_algorithm ..
          sequence := by rw [body_job, hsame.sequence]
          index := by rw [body_job, hsame.index]
          algorithm := by rw [body_job, hsame.algorithm]
          jobs := fun h => by rw [body_job, WorkerJob.currentJob_nextRound _ _ _ _ h]
          others := fun k hk => by rw [body_job, hsame.jobs k hk]
          held := held_body s.nonce w answer }

/-- A worker that hashes has passed its self-test, and a slot that was not saved has no
job. -/
structure Sound (w : CpuWorker N) : Prop where
  selfTest : w.pc ≠ .done → selfTest N w.algorithm = true
  empty : ∀ k, (w.slots k).held = false → w.job.jobs k = Job.empty

theorem held_add (σ : Nonce) (w : CpuWorker N) (asleep : Bool) (k : Fin 2) :
    ((w.add σ asleep).2.1.slots k).held =
      ((w.slots k).held || w.job.saves w.next && decide (k = w.next.index)) := by
  unfold add
  dsimp only
  cases w.job.saves w.next with
  | false => simp
  | true =>
      by_cases hk : k = w.next.index
      · subst hk
        simp [saved]
      · simp [hk]

/-- A worker that was just launched has recorded nothing. -/
theorem launch_new (algorithm : Algorithm) : (launch algorithm : CpuWorker N).job.sequence = 0 ∧
    ∀ k, ((launch algorithm : CpuWorker N).slots k).held = false := by
  unfold launch
  dsimp only
  split <;> exact ⟨rfl, fun _ => rfl⟩

theorem sound_launch (algorithm : Algorithm) : (launch algorithm : CpuWorker N).Sound := by
  unfold launch
  dsimp only
  split
  · next h => exact ⟨fun _ => h, fun _ _ => rfl⟩
  · exact ⟨fun h => absurd rfl h, fun _ _ => rfl⟩

theorem Sound.step (h : w.Sound) (hs : w.step s answer = some x) : x.2.1.Sound := by
  have halive : w.pc ≠ .done := by
    intro hdone
    rw [CpuWorker.step, hdone] at hs
    contradiction
  obtain ⟨-, ⟨asleep, -, rfl⟩ | hrec⟩ := step_records hs
  · refine ⟨fun _ => by rw [add_algorithm]; exact h.selfTest halive, ?_⟩
    intro k hk
    simp only [held_add, Bool.or_eq_false_iff, Bool.and_eq_false_iff, decide_eq_false_iff_not] at hk
    rw [add_job, WorkerJob.jobs_add]
    · exact h.empty k hk.1
    · intro hsaves
      exact hk.2.resolve_left (ne_false_of_eq_true hsaves)
  · refine ⟨fun _ => by rw [hrec.selfTest]; exact h.selfTest halive, ?_⟩
    intro k hk
    rw [hrec.held] at hk
    have hempty : w.job.jobs k = Job.empty := h.empty k hk
    by_cases hindex : k = w.job.index
    · have hjob : w.job.currentJob = Job.empty := by rw [WorkerJob.currentJob, ← hindex, hempty]
      have hsize : w.job.currentJob.nonceSize ≠ 8 := by
        rw [hjob]
        simp [Job.nonceSize, Job.empty, Algorithm.family]
      rw [hrec.jobs hsize]
      exact hempty
    · rw [hrec.others k hindex, hempty]

theorem passes_iff {σ : Nonce} : w.passes σ = true ↔
    w.job.sequence = σ.sequence .CPU ∧ w.job.currentJob.algorithm.l3 = w.algorithm.l3 := by
  simp only [passes, Nonce.isOutdated, Bool.and_eq_true, Bool.not_eq_true', bne_eq_false_iff_eq,
    beq_iff_eq]
  exact and_congr_left' eq_comm

/-- A worker whose job fits its scratchpad has a job, and its nonce is of four bytes. -/
theorem Sound.of_l3 (h : w.Sound) (hpc : w.pc ≠ .done)
    (hl3 : w.job.currentJob.algorithm.l3 = w.algorithm.l3) :
    w.slot.held = true ∧ w.job.currentJob.nonceSize ≠ 8 := by
  obtain ⟨h0, hkawpow⟩ := l3_of_selfTest (h.selfTest hpc)
  constructor
  · by_contra hheld
    have hempty : w.job.currentJob = Job.empty := h.empty _ (Bool.not_eq_true _ ▸ hheld)
    rw [hempty] at hl3
    exact h0 hl3.symm
  · unfold Job.nonceSize
    split
    · next hfamily =>
      exfalso
      refine hkawpow (hl3.symm.trans ?_)
      simp only [Algorithm.l3, hfamily]
    · decide

end CpuWorker

/-- The action counts the sequence numbers of the backends up. -/
def Action.touches : Action → Bool
  | .touch | .launch _ => true
  | _ => false

namespace Threads

variable [Features] [Hasher] {ι : Type*} {N : ι → Nat} {s s' : Threads ι N}

/-! ## What a step does to the sequence number -/

/-- A step of the main thread that changes neither the sequence number nor what a
worker compares with it. -/
structure Frame (s s' : Threads ι N) : Prop where
  joining : s.joining = false
  ended : s.todo.head? = some .stopBackend → s.miner.backend.threads = []
  launches : ∀ threads, .launch threads ∈ s'.todo → .launch threads ∈ s.todo ∨ threads ≠ []
  sequence : s'.miner.nonce.sequence = s.miner.nonce.sequence
  threads : s'.miner.backend.threads = s.miner.backend.threads
  job : s'.miner.job = s.miner.job
  worker : s'.worker = s.worker
  stays : s'.joining = s.joining
  stored : s'.stored = s.stored

/-- Worker `w` has taken the step `x`. -/
structure Moved (s : Threads ι N) (w : ι) (x : Nonce × CpuWorker (N w) × Trace)
    (s' : Threads ι N) : Prop where
  self : s'.worker w = x.2.1
  others : ∀ v ≠ w, s'.worker v = s.worker v
  sequence : s'.miner.nonce.sequence = s.miner.nonce.sequence
  threads : s'.miner.backend.threads = s.miner.backend.threads
  job : s'.miner.job = s.miner.job
  todo : s'.todo = s.todo
  joining : s'.joining = s.joining
  stored : s'.stored = s.stored

theorem Moved.forall {w : ι} {x : Nonce × CpuWorker (N w) × Trace}
    {P : (v : ι) → CpuWorker (N v) → Prop} (h : s.Moved w x s') (hself : P w x.2.1)
    (hothers : ∀ v, P v (s.worker v)) (v : ι) : P v (s'.worker v) := by
  by_cases hv : v = w
  · subst hv
    rw [h.self]
    exact hself
  · rw [h.others v hv]
    exact hothers v

/-- The steps, by what they do to the sequence number and to the miner's job. -/
inductive Effect (s : Threads ι N) : Event ι → Threads ι N → Prop
  | frame {e : Event ι} {s' : Threads ι N} : s.Frame s' → Effect s e s'
  | touch {todo : List Action} : s.joining = false → s.todo = .touch :: todo →
      Effect s .main (exec { s with todo } .touch)
  | store {todo : List Action} {job : Job} {donate isReady : Bool} : s.joining = false →
      s.todo = .store job donate isReady :: todo →
      Effect s .main (exec { s with todo } (.store job donate isReady))
  | stopSequences {todo : List Action} : s.joining = false → s.todo = .stopSequences :: todo →
      Effect s .main (exec { s with todo } .stopSequences)
  | stopBackend {todo : List Action} : s.joining = false → s.todo = .stopBackend :: todo →
      s.miner.backend.threads ≠ [] → Effect s .main { s with
        todo
        miner := { s.miner with nonce := s.miner.nonce.stopBackend .CPU }
        joining := true }
  | launch {todo : List Action} {threads : List CpuLaunchData} : s.joining = false →
      s.todo = .launch threads :: todo →
      Effect s .main (exec { s with todo } (.launch threads))
  | join : s.joining = true → s.Ended → Effect s .main s.join
  | worker {w : ι} {answer : Bool} {x : Nonce × CpuWorker (N w) × Trace} {s' : Threads ι N} :
      (s.worker w).step s.miner answer = some x → s.Moved w x s' →
      Effect s (.worker w answer) s'

omit [Hasher] in
/-- No call starts with a launch. -/
theorem launch_start {m : Miner} {c : Call} {threads : List CpuLaunchData} :
    .launch threads ∉ (Call.start m c).2 := by
  cases c <;> simp only [Call.start]
  all_goals repeat' split
  all_goals simp [handleJobChange, stop]

omit [Hasher] in
/-- A job change launches no empty list. -/
theorem launch_setBackendJob {m : Miner} {threads : List CpuLaunchData}
    (h : .launch threads ∈ (setBackendJob m).2) : threads ≠ [] := by
  unfold setBackendJob at h
  dsimp only at h
  split at h
  · simp at h
  · split at h
    · simp at h
    · split at h
      · simp at h
      · next hnone =>
        simp only [List.mem_cons, reduceCtorEq, Action.launch.injEq, List.not_mem_nil, or_false,
          false_or] at h
        rw [h]
        simp only [Bool.or_eq_true, List.isEmpty_iff, not_or] at hnone
        exact hnone.2

/-- An action that writes neither the sequence number nor the job. -/
theorem frame_exec {a : Action} {todo : List Action} (hjoin : s.joining = false)
    (htodo : s.todo = a :: todo) (hended : a = .stopBackend → s.miner.backend.threads = [])
    (hminer : (exec { s with todo } a).miner.nonce.sequence = s.miner.nonce.sequence ∧
      (exec { s with todo } a).miner.backend.threads = s.miner.backend.threads ∧
      (exec { s with todo } a).miner.job = s.miner.job)
    (hrest : (exec { s with todo } a).worker = s.worker ∧
      (exec { s with todo } a).joining = s.joining ∧ (exec { s with todo } a).stored = s.stored)
    (hlaunch : ∀ threads, .launch threads ∈ (exec { s with todo } a).todo →
      .launch threads ∈ todo ∨ threads ≠ []) :
    s.Frame (exec { s with todo } a) where
  joining := hjoin
  ended := by
    rw [htodo]
    exact fun h => hended (Option.some.inj h)
  launches threads h := by
    rw [htodo]
    exact (hlaunch threads h).imp_left fun h => List.mem_cons_of_mem a h
  sequence := hminer.1
  threads := hminer.2.1
  job := hminer.2.2
  worker := hrest.1
  stays := hrest.2.1
  stored := hrest.2.2

theorem exec_effect {a : Action} {todo : List Action} (hjoin : s.joining = false)
    (htodo : s.todo = a :: todo) : s.Effect .main (exec { s with todo } a) := by
  cases a with
  | pauseIfDisabled =>
      refine .frame (frame_exec hjoin htodo (fun heq => by cases heq) ?_ ⟨rfl, rfl, rfl⟩
        fun _ => .inl)
      simp only [exec, Miner.pauseIfDisabled]
      split <;> exact ⟨rfl, rfl, rfl⟩
  | resetCounter =>
      refine .frame (frame_exec hjoin htodo (fun heq => by cases heq) ?_ ⟨rfl, rfl, rfl⟩
        fun _ => .inl)
      simp only [exec, Miner.resetCounter]
      split <;> exact ⟨rfl, rfl, rfl⟩
  | setBackendJob =>
      refine .frame (frame_exec hjoin htodo (fun heq => by cases heq) ?_ ⟨rfl, rfl, rfl⟩ ?_)
      · simp only [exec, setBackendJob]
        split
        · exact ⟨rfl, rfl, rfl⟩
        · split <;> exact ⟨rfl, rfl, rfl⟩
      · intro threads h
        exact (List.mem_append.mp h).symm.imp_right launch_setBackendJob
  | touch => exact .touch hjoin htodo
  | unpause =>
      refine .frame (frame_exec hjoin htodo (fun heq => by cases heq) ?_ ⟨rfl, rfl, rfl⟩
        fun _ => .inl)
      simp only [exec, Miner.unpause]
      split <;> exact ⟨rfl, rfl, rfl⟩
  | startTimer =>
      refine .frame (frame_exec hjoin htodo (fun heq => by cases heq) ?_ ⟨rfl, rfl, rfl⟩
        fun _ => .inl)
      simp only [exec, Miner.startTimer]
      split <;> exact ⟨rfl, rfl, rfl⟩
  | store job donate isReady => exact .store hjoin htodo
  | deactivate | setEnabled enabled | clearPause =>
      exact .frame (frame_exec hjoin htodo (fun heq => by cases heq) ⟨rfl, rfl, rfl⟩ ⟨rfl, rfl, rfl⟩
        fun _ => .inl)
  | stopSequences => exact .stopSequences hjoin htodo
  | stopBackend =>
      by_cases hthreads : s.miner.backend.threads = []
      · have hexec : exec { s with todo } .stopBackend = { s with todo } := if_pos hthreads
        rw [hexec]
        refine .frame ?_
        rw [← hexec]
        refine frame_exec hjoin htodo (fun _ => hthreads) ?_ ?_ ?_ <;> rw [hexec]
        · exact ⟨rfl, rfl, rfl⟩
        · exact ⟨rfl, rfl, rfl⟩
        · exact fun _ => .inl
      · have hexec := Effect.stopBackend hjoin htodo hthreads
        rwa [exec, if_neg hthreads]
  | launch threads => exact .launch hjoin htodo

variable [Fintype ι] [DecidableEq ι] {e : Event ι}

theorem step_effect (h : step s e = some s') : s.Effect e s' := by
  obtain ⟨c, rfl, hjoin, htodo, rfl⟩ | ⟨a, todo, rfl, hjoin, htodo, rfl⟩ | ⟨rfl, hjoin, hended, rfl⟩ |
    ⟨w, answer, rfl, hw⟩ := step_cases h
  · refine .frame
      { joining := hjoin
        ended := by rw [htodo]; exact nofun
        launches := fun threads hmem => absurd hmem launch_start
        sequence := ?_
        threads := ?_
        job := ?_
        worker := rfl
        stays := rfl
        stored := rfl }
    all_goals
      cases c with
      | setEnabled enabled =>
          simp only [Call.start]
          split
          · rfl
          · split
            · rfl
            · split <;> rfl
      | _ => rfl
  · exact exec_effect hjoin htodo
  · exact .join hjoin hended
  · obtain ⟨x, hx, rfl⟩ := workerStep_eq hw
    refine .worker hx
      { self := Function.update_self ..
        others := fun v hv => Function.update_of_ne hv ..
        sequence := (CpuWorker.step_records hx).1.sequence
        threads := rfl
        job := rfl
        todo := rfl
        joining := rfl
        stored := rfl }

/-! ## The threads in every run -/

/-- The next action does not bring a sequence number from its last value to 0. -/
def Room (s : Threads ι N) : Event ι → Prop
  | .main => ∀ a ∈ s.todo.head?, a.touches = true → s.miner.nonce.sequence .CPU + 1 ≠ 0
  | _ => True

instance (s : Threads ι N) : (e : Event ι) → Decidable (s.Room e)
  | .main => inferInstanceAs (Decidable (∀ a ∈ s.todo.head?, _))
  | .call _ | .worker .. => inferInstanceAs (Decidable True)

/-- Without launch data no thread is left, and while the sequence number is 0 the
threads are being stopped or have ended. -/
structure Started (s : Threads ι N) : Prop where
  ended : s.miner.backend.threads = [] → s.Ended
  stopped : s.miner.nonce.sequence .CPU = 0 →
    s.Ended ∨ s.joining = true ∨ s.todo.head? = some .stopBackend
  joining : s.joining = true → s.miner.nonce.sequence .CPU = 0
  launches : ∀ threads, .launch threads ∈ s.todo → threads ≠ []
  sound : ∀ w, (s.worker w).Sound

omit [Fintype ι] [DecidableEq ι] in
theorem alive_of_step {w : ι} {answer : Bool} {x : Nonce × CpuWorker (N w) × Trace}
    (hs : (s.worker w).step s.miner answer = some x) : (s.worker w).pc ≠ .done := by
  intro hdone
  rw [CpuWorker.step, hdone] at hs
  contradiction

omit [Fintype ι] [DecidableEq ι] in
/-- The sequence number is 0 at the next action: it is the one that waits for the
threads, or they have ended. -/
theorem Started.ended_of_zero {a : Action} {todo : List Action} (h : s.Started)
    (hjoin : s.joining = false) (htodo : s.todo = a :: todo) (ha : a ≠ .stopBackend)
    (h0 : s.miner.nonce.sequence .CPU = 0) : s.Ended := by
  obtain hended | hjoining | hhead := h.stopped h0
  · exact hended
  · rw [hjoin] at hjoining
    contradiction
  · rw [htodo] at hhead
    exact absurd (Option.some.inj hhead) ha

omit [Fintype ι] [DecidableEq ι] in
theorem Started.effect (h : s.Started) (he : s.Effect e s') (hroom : s.Room e) : s'.Started := by
  cases he with
  | frame hf =>
      refine ⟨?_, ?_, ?_, ?_, ?_⟩
      · intro hthreads
        rw [hf.threads] at hthreads
        unfold Ended
        rw [hf.worker]
        exact h.ended hthreads
      · intro h0
        rw [hf.sequence] at h0
        refine .inl ?_
        unfold Ended
        rw [hf.worker]
        obtain hended | hjoining | hhead := h.stopped h0
        · exact hended
        · rw [hf.joining] at hjoining
          contradiction
        · exact h.ended (hf.ended hhead)
      · intro hjoining
        rw [hf.stays, hf.joining] at hjoining
        contradiction
      · exact fun threads hmem => (hf.launches threads hmem).elim (h.launches threads) id
      · rw [hf.worker]
        exact h.sound
  | @touch todo hjoin htodo =>
      refine ⟨h.ended, ?_, ?_, ?_, h.sound⟩
      · exact fun h0 => absurd h0 (hroom .touch (by rw [htodo]; rfl) rfl)
      · exact fun hjoining => absurd (hjoin.symm.trans hjoining) (by decide)
      · exact fun threads hmem => h.launches threads (htodo ▸ List.mem_cons_of_mem _ hmem)
  | @store todo job donate isReady hjoin htodo =>
      refine ⟨h.ended, ?_, ?_, ?_, h.sound⟩
      · exact fun h0 => .inl (h.ended_of_zero hjoin htodo nofun h0)
      · exact fun hjoining => absurd (hjoin.symm.trans hjoining) (by decide)
      · intro threads hmem
        simp only [exec, List.mem_append] at hmem
        refine h.launches threads (htodo ▸ List.mem_cons_of_mem _ (hmem.resolve_left ?_))
        split <;> simp [handleJobChange]
  | @stopSequences todo hjoin htodo =>
      refine ⟨h.ended, fun _ => .inr (.inr rfl), ?_, ?_, h.sound⟩
      · exact fun _ => rfl
      · intro threads hmem
        have hmem' : .launch threads ∈ todo := (List.mem_cons.mp hmem).resolve_left nofun
        exact h.launches threads (htodo ▸ List.mem_cons_of_mem _ hmem')
  | @stopBackend todo hjoin htodo hthreads =>
      refine ⟨fun hnil => absurd hnil hthreads, fun _ => .inr (.inl rfl), ?_, ?_, h.sound⟩
      · exact fun _ => rfl
      · exact fun threads hmem => h.launches threads (htodo ▸ List.mem_cons_of_mem _ hmem)
  | @launch todo threads hjoin htodo =>
      refine ⟨?_, ?_, ?_, ?_, fun w => CpuWorker.sound_launch _⟩
      · exact fun hnil => absurd hnil (h.launches threads (htodo ▸ List.mem_cons_self))
      · exact fun h0 => absurd h0 (hroom _ (by rw [htodo]; rfl) rfl)
      · exact fun hjoining => absurd (hjoin.symm.trans hjoining) (by decide)
      · exact fun threads hmem => h.launches threads (htodo ▸ List.mem_cons_of_mem _ hmem)
  | join hjoin hended =>
      exact ⟨fun _ => hended, fun _ => .inl hended, nofun, h.launches, h.sound⟩
  | @worker w answer x s' hs hm =>
      have halive : ¬ s.Ended := fun hended => alive_of_step hs (hended w)
      refine ⟨?_, ?_, ?_, ?_, ?_⟩
      · intro hthreads
        rw [hm.threads] at hthreads
        exact absurd (h.ended hthreads) halive
      · rw [hm.sequence, hm.joining, hm.todo]
        exact fun h0 => .inr ((h.stopped h0).resolve_left halive)
      · rw [hm.sequence, hm.joining]
        exact h.joining
      · rw [hm.todo]
        exact h.launches
      · exact hm.forall ((h.sound w).step hs) h.sound

omit [Fintype ι] [DecidableEq ι] in
theorem started_init (config : Config) : (init config : Threads ι N).Started where
  ended _ _ := rfl
  stopped _ := .inl fun _ => rfl
  joining := nofun
  launches := nofun
  sound _ := ⟨fun h => absurd rfl h, fun _ _ => rfl⟩

end Threads

end XLArig

namespace XLArig.Threads

/-! ## Runs of one worker with one lane -/

/-- The main thread takes `n` actions. -/
def actions (n : Nat) : List (Event Unit) := List.replicate n .main

/-- The worker takes `n` steps. -/
def steps (n : Nat) : List (Event Unit) := List.replicate n (.worker () true)

/-- The first job is set and launches the threads. -/
def launchJob : List (Event Unit) := .call (.setJob (.sample "1") false false true) :: actions 9

theorem init_sample : (machine Unit fun _ => 1).init (init (Miner.sample 1)) := ⟨_, rfl⟩

end XLArig.Threads
