import XLArig.Threads.Sequence

/-!
# XLArig.Threads.Stall

Who raises the pause flag.

`Nonce::next` pauses the miner when it takes the last window below its mask.  The index
and the mask are those of the job the worker holds, which need not be the miner's any
more.  In the runs in which only a worker with the index of the miner's job, and a mask
that is not smaller, takes a last window, the miner is paused only when the nonces of its
job are exhausted (`exhausted_of_paused`).
-/

namespace XLArig

open Nonce (truncMask)

/-- The counter of the miner's job has passed its mask. -/
def Miner.Exhausted [Features] (m : Miner) : Prop :=
  (truncMask m.job.nonceMask).toNat < (m.nonce.nonces m.job.index).toNat

instance [Features] (m : Miner) : Decidable m.Exhausted := inferInstanceAs (Decidable (_ < _))

namespace Threads

variable [Features] [Hasher] {ι : Type*} {N : ι → Nat} {s s' : Threads ι N}

/-- `n` calls of `Nonce::next` with this index and mask may take the last window. -/
def Ends (σ : Nonce) (n : Nat) (r : Fin 2 × UInt64) : Prop :=
  (σ.nonces r.1).toNat ≤ (truncMask r.2).toNat ∧
    (truncMask r.2).toNat < (σ.nonces r.1).toNat + n * reserveCount.toNat

instance (σ : Nonce) (n : Nat) (r : Fin 2 × UInt64) : Decidable (Ends σ n r) :=
  inferInstanceAs (Decidable (_ ∧ _))

/-- The miner mines, and its job has been handled. -/
def Mines (s : Threads ι N) : Prop :=
  s.handled = true ∧ s.miner.active = true ∧ s.miner.enabled = true

instance (s : Threads ι N) : Decidable s.Mines := inferInstanceAs (Decidable (_ ∧ _))

/-- While the miner mines, a worker that may take a last window has the index of the
miner's job and no smaller mask, or the nonces of that job are exhausted already; and no
counter wraps. -/
def Owned (s : Threads ι N) : Event ι → Prop
  | .worker w _ => ∀ r ∈ (s.worker w).asks,
      (s.miner.nonce.nonces r.1).toNat + N w * reserveCount.toNat < 2 ^ 64 ∧
        (s.Mines → Ends s.miner.nonce (N w) r →
          (r.1 = s.miner.job.index ∧
            (truncMask s.miner.job.nonceMask).toNat ≤ (truncMask r.2).toNat) ∨ s.miner.Exhausted)
  | _ => True

instance (s : Threads ι N) : (e : Event ι) → Decidable (s.Owned e)
  | .worker w _ => Option.decidableForallMem (s.worker w).asks
  | .call _ | .main => inferInstanceAs (Decidable True)

/-- The counters stand at the start of a window, and a miner that mines is only paused
when the nonces of its job are exhausted. -/
structure Live (s : Threads ι N) : Prop where
  aligned : ∀ k, s.miner.nonce.Aligned k reserveCount
  exhausted : s.Mines → s.miner.nonce.paused = true → s.miner.Exhausted

/-- What the invariant is about stays the same. -/
theorem Live.same (h : s.Live) (hnonces : s'.miner.nonce.nonces = s.miner.nonce.nonces)
    (hpaused : s'.miner.nonce.paused = s.miner.nonce.paused) (hjob : s'.miner.job = s.miner.job)
    (hmines : s'.Mines → s.Mines) : s'.Live := by
  constructor
  · intro k
    unfold Nonce.Aligned
    rw [hnonces]
    exact h.aligned k
  · intro hm
    unfold Miner.Exhausted
    rw [hnonces, hpaused, hjob]
    exact h.exhausted (hmines hm)

/-- The miner does not mine, or is not paused. -/
theorem live_idle (hnonces : ∀ k, s'.miner.nonce.Aligned k reserveCount)
    (hidle : s'.Mines → s'.miner.nonce.paused = false) : s'.Live :=
  ⟨hnonces, fun hm hpaused => absurd (hpaused.symm.trans (hidle hm)) (by decide)⟩

theorem Live.exec (h : s.Live) (a : Action) : (exec s a).Live := by
  cases a with
  | pauseIfDisabled =>
      refine live_idle (fun k => ?_) fun hm => absurd hm.1 Bool.false_ne_true
      simp only [Threads.exec, Miner.pauseIfDisabled]
      split <;> exact h.aligned k
  | resetCounter =>
      refine live_idle (fun k => ?_) fun hm => absurd hm.1 Bool.false_ne_true
      simp only [Threads.exec, Miner.resetCounter]
      split
      · by_cases hk : k = s.miner.job.index
        · subst hk
          simp [Nonce.Aligned, Nonce.reset]
        · simpa [Nonce.Aligned, Nonce.reset, hk] using h.aligned k
      · exact h.aligned k
  | setBackendJob =>
      have hminer : (setBackendJob s.miner).1.nonce = s.miner.nonce ∧
          (setBackendJob s.miner).1.job = s.miner.job ∧
          (setBackendJob s.miner).1.active = s.miner.active ∧
          (setBackendJob s.miner).1.enabled = s.miner.enabled := by
        unfold setBackendJob
        dsimp only
        split
        · exact ⟨rfl, rfl, rfl, rfl⟩
        · split <;> exact ⟨rfl, rfl, rfl, rfl⟩
      obtain ⟨hnonce, hjob, hactive, henabled⟩ := hminer
      refine h.same (congrArg Nonce.nonces hnonce) (congrArg Nonce.paused hnonce) hjob ?_
      exact fun hm => ⟨hm.1, hactive ▸ hm.2.1, henabled ▸ hm.2.2⟩
  | touch => exact h.same rfl rfl rfl id
  | unpause =>
      refine live_idle (fun k => ?_) fun hm => ?_
      · simp only [Threads.exec, Miner.unpause]
        split <;> exact h.aligned k
      · obtain ⟨-, hactive, henabled⟩ := hm
        simp only [Threads.exec, Miner.unpause] at hactive henabled ⊢
        by_cases hon : (s.miner.active && s.miner.enabled) = true
        · rw [if_pos hon]
          rfl
        · rw [if_neg hon] at hactive henabled
          exact absurd (by rw [hactive, henabled]; rfl) hon
  | startTimer =>
      simp only [Threads.exec, Miner.startTimer]
      split
      · exact h.same rfl rfl rfl id
      · exact h
  | store job donate isReady => exact live_idle h.aligned fun hm => absurd hm.1 Bool.false_ne_true
  | deactivate => exact live_idle h.aligned fun hm => absurd hm.2.1 Bool.false_ne_true
  | setEnabled enabled =>
      refine live_idle h.aligned fun hm => ?_
      have henabled : enabled = true := hm.2.2
      simp [Threads.exec, Nonce.pause, henabled]
  | clearPause => exact live_idle h.aligned fun _ => rfl
  | stopSequences => exact h.same rfl rfl rfl id
  | stopBackend =>
      simp only [Threads.exec]
      split
      · exact h
      · exact h.same rfl rfl rfl id
  | launch threads => exact h.same rfl rfl rfl id

variable [DecidableEq ι] {w : ι} {answer : Bool}

theorem Live.worker (h : s.Live) (hs : s.workerStep w answer = some s')
    (hg : s.Owned (.worker w answer)) : s'.Live := by
  obtain ⟨x, hx, rfl⟩ := workerStep_eq hs
  obtain hsame | ⟨r, hr, cs, hdrawn⟩ :=
    CpuWorker.step_drawn hx h.aligned fun r hr => (hg r hr).1
  · refine h.same ?_ ?_ rfl id <;> rw [hsame]
  · have hcounter : ∀ k, (s.miner.nonce.nonces k).toNat ≤ (x.1.nonces k).toNat := by
      intro k
      by_cases hk : k = r.1
      · rw [hk]
        exact hdrawn.le
      · rw [hdrawn.nonces_of_ne hk]
    constructor
    · intro k
      by_cases hk : k = r.1
      · rw [hk]
        exact hdrawn.aligned
      · have haligned := h.aligned k
        unfold Nonce.Aligned at haligned ⊢
        rwa [hdrawn.nonces_of_ne hk]
    · intro hm hpaused
      have hkept : s.miner.Exhausted →
          (truncMask s.miner.job.nonceMask).toNat < (x.1.nonces s.miner.job.index).toNat :=
        fun hex => Nat.lt_of_lt_of_le hex (hcounter _)
      obtain hbefore | ⟨hle, hlt⟩ := hdrawn.paused hpaused
      · exact hkept (h.exhausted hm hbefore)
      · have hends : Ends s.miner.nonce (N w) r := ⟨hle, hlt.trans_le hdrawn.le_add⟩
        obtain ⟨hindex, hmask⟩ | hex := (hg r hr).2 hm hends
        · show (truncMask s.miner.job.nonceMask).toNat < (x.1.nonces s.miner.job.index).toNat
          rw [← hindex]
          exact hmask.trans_lt hlt
        · exact hkept hex

variable [Fintype ι] {e : Event ι}

theorem Live.step (h : s.Live) (hg : s.Owned e) (hs : step s e = some s') : s'.Live := by
  obtain ⟨c, rfl, hjoin, htodo, rfl⟩ | ⟨a, todo, rfl, hjoin, htodo, rfl⟩ |
    ⟨rfl, hjoin, hended, rfl⟩ | ⟨w, answer, rfl, hw⟩ := step_cases hs
  · cases c with
    | setEnabled enabled =>
        simp only [Call.start]
        split
        · exact h.same rfl rfl rfl id
        · split
          · exact h.same rfl rfl rfl id
          · split
            · next hidle =>
              refine live_idle h.aligned fun hm => absurd hm.2.1 ?_
              simpa using hidle
            · exact h.same rfl rfl rfl id
    | _ => exact h.same rfl rfl rfl id
  · have hnext : ({ s with todo } : Threads ι N).Live := h.same rfl rfl rfl id
    exact hnext.exec a
  · exact h.same rfl rfl rfl id
  · exact h.worker hw hg

/-- **A miner that mines is only paused when the nonces of its job are exhausted**, in
every run in which no worker takes the last window of another job or under a smaller
mask. -/
theorem exhausted_of_paused (h : (machine ι N).ReachableIf Owned s) (hmines : s.Mines)
    (hpaused : s.miner.nonce.paused = true) : s.miner.Exhausted := by
  have hlive : s.Live := by
    apply h.invariant
    · rintro s ⟨config, rfl⟩
      exact live_idle (fun k => Nat.dvd_zero _) fun hm => absurd hm.2.1 Bool.false_ne_true
    · exact fun _ _ _ hl hg hs => hl.step hg hs
  exact hlive.exhausted hmines hpaused

end Threads

/-! ## Runs of one worker

A worker with one lane mines a NiceHash job: it draws a window of `2 ^ 15` nonces with the job and
another one after as many rounds, and the mask has room for `2 ^ 9` of them. -/

namespace Nonce

/-- A window that the first turn of the loop grants. -/
theorem request_grant {σ : Nonce} {index : Fin 2} {p : Bool}
    (h : turn 0xFFFFFF (σ.nonces index) reserveCount = .grant p) :
    σ.request index reserveCount 0xFFFFFF =
      (σ.advance index (σ.nonces index + reserveCount.toUInt64) p, some (σ.nonces index)) := by
  have hmask : truncMask 0xFFFFFF = 0xFFFFFF := by decide
  have hlarge : ¬ (reserveCount = 0 ∨ (0xFFFFFF : UInt64) < (reserveCount - 1).toUInt64) := by
    decide
  simp only [request, next, hmask, if_neg hlarge, reserve, h]
  cases p <;> simp [fetchAdd, pause, advance]

/-- A window with others above it, and the last one. -/
theorem turn_window {counter : UInt64} {k : Nat} (hc : counter.toNat = 2 ^ 15 * k)
    (hk : k < 2 ^ 9) :
    turn 0xFFFFFF counter reserveCount = .grant (k + 1 == 2 ^ 9) := by
  have hmask : (0xFFFFFF : UInt64).toNat = 2 ^ 24 - 1 := rfl
  have hcount : reserveCount.toNat = 2 ^ 15 := rfl
  have hcases := turn_cases 0xFFFFFF counter (show reserveCount ≠ 0 by decide)
  rw [hmask, hcount] at hcases
  obtain ⟨h, -⟩ | ⟨-, h, -⟩ | ⟨h, ht⟩ | ⟨-, h, -⟩ | ⟨h, -, ht⟩ := hcases
  · omega
  · omega
  · have hlast : (k + 1 == 2 ^ 9) = true := beq_iff_eq.mpr (by omega)
    rw [ht, hlast]
  · omega
  · have hmore : (k + 1 == 2 ^ 9) = false := beq_eq_false_iff_ne.mpr (by omega)
    rw [ht, hmore]

end Nonce

namespace WorkerJob

variable [Features] {σ σ' : Nonce} {w : WorkerJob 1} {c : UInt64}

theorem nextRound_granted_one (hb : w.atBoundary reserveCount)
    (h : σ.request w.index reserveCount w.nonceMask = (σ', some c)) :
    (w.nextRound σ reserveCount 1).1 = σ' ∧ (w.nextRound σ reserveCount 1).2.2.2 = true := by
  obtain ⟨hσ, hcs⟩ := nextRound_requests σ 1 hb
  have hone : reserveCount * 1 = reserveCount := rfl
  rw [hσ, hcs, hone]
  simp [Nonce.requestsWhile, h]

/-- A round leaves the window, or draws the next one; the last one raises the pause flag. -/
theorem nextRound_advance (hindex : w.index = userIndex) (hmask : w.nonceMask = 0xFFFFFF)
    (hcounter : (σ.nonces userIndex).toNat = 2 ^ 15 * (w.round.toNat / 2 ^ 15 + 1))
    (hn : w.round.toNat + 1 ≤ 2 ^ 15 * (2 ^ 9 - 1)) :
    (w.nextRound σ reserveCount 1).2.2.2 = true ∧
    ∃ counter : UInt64, (w.nextRound σ reserveCount 1).1 =
        σ.advance userIndex counter (w.round.toNat + 1 == 2 ^ 15 * (2 ^ 9 - 1)) ∧
      counter.toNat = 2 ^ 15 * ((w.round.toNat + 1) / 2 ^ 15 + 1) := by
  by_cases hb : w.atBoundary reserveCount
  · have hmod := w.atBoundary_iff.mp hb
    rw [toNat_reserveCount] at hmod
    have hrequest := Nonce.request_grant (Nonce.turn_window hcounter (by omega))
    have hlast : (w.round.toNat / 2 ^ 15 + 1 + 1 == 2 ^ 9) =
        (w.round.toNat + 1 == 2 ^ 15 * (2 ^ 9 - 1)) := by
      rw [Bool.eq_iff_iff, beq_iff_eq, beq_iff_eq]
      omega
    have hnext : (σ.nonces userIndex + reserveCount.toUInt64).toNat =
        2 ^ 15 * ((w.round.toNat + 1) / 2 ^ 15 + 1) := by
      rw [UInt64.toNat_add, UInt32.toNat_toUInt64, toNat_reserveCount, hcounter]
      omega
    rw [hlast, ← hmask, ← hindex] at hrequest
    obtain ⟨hσ, hok⟩ := nextRound_granted_one hb hrequest
    rw [hindex] at hσ
    exact ⟨hok, _, hσ, hnext⟩
  · obtain ⟨hσ, hok⟩ := nextRound_walks σ 1 hb
    have hmod := mt w.atBoundary_iff.mpr hb
    rw [toNat_reserveCount] at hmod
    have hlast : (w.round.toNat + 1 == 2 ^ 15 * (2 ^ 9 - 1)) = false :=
      beq_eq_false_iff_ne.mpr (by omega)
    refine ⟨by rw [hok], σ.nonces userIndex, ?_, by omega⟩
    rw [hσ, hlast]
    simp [Nonce.advance]

end WorkerJob

namespace CpuWorker

variable [Features] [Hasher] {N : Nat} {σ : Nonce} {w : CpuWorker N} {valid : Bool}

theorem body_pc_of_ok (h : (w.job.nextRound σ reserveCount 1).2.2.2 = true) :
    (w.body σ valid).2.1.pc = .inner := by
  have hok := nextRound_result σ (w.hashBefore valid)
  rw [hashBefore_job, h] at hok
  unfold body
  generalize (w.hashBefore valid).nextRound σ = y at hok ⊢
  obtain ⟨σ', w', granted, _ | _⟩ := y
  · contradiction
  · rfl

end CpuWorker

namespace Threads

/-- The worker has done `n` rounds of the miner's job, and its last window is not the last one
below the mask. -/
@[mk_iff]
structure Mining (n : Nat) (s : Threads Unit fun _ => 1) : Prop where
  todo : s.todo = []
  joining : s.joining = false
  mines : s.Mines
  jobIndex : s.miner.job.index = userIndex
  jobMask : s.miner.job.nonceMask = 0xFFFFFF
  upToDate : s.miner.config.cpu.isEnabled = true ∧
    s.miner.backend.upToDate s.miner.config.cpu (.sample "2") = true
  paused : s.miner.nonce.paused = false
  pc : (s.worker ()).pc = .inner
  passes : (s.worker ()).passes s.miner.nonce = true
  index : (s.worker ()).job.index = userIndex
  mask : (s.worker ()).job.nonceMask = 0xFFFFFF
  round : (s.worker ()).job.round.toNat = n
  counter : (s.miner.nonce.nonces userIndex).toNat = 2 ^ 15 * (n / 2 ^ 15 + 1)

instance (n : Nat) (s : Threads Unit fun _ => 1) : Decidable (Mining n s) :=
  decidable_of_iff _ (mining_iff n s).symm

/-- The step of the only worker. -/
theorem step_unit {s : Threads Unit fun _ => 1} {x : Nonce × CpuWorker 1 × Trace}
    (h : (s.worker ()).step s.miner true = some x) :
    ∃ s', step s (.worker () true) = some s' ∧ s'.miner = { s.miner with nonce := x.1 } ∧
      s'.worker () = x.2.1 ∧ s'.todo = s.todo ∧ s'.joining = s.joining ∧
      s'.handled = s.handled := by
  have hstep : s.workerStep () true = some { s with
      miner := { s.miner with nonce := x.1 }
      worker := Function.update s.worker () x.2.1
      granted := x.2.2.granted.map ((), ·) ++ s.granted
      hashed := x.2.2.hashed.map ((), ·) ++ s.hashed
      submitted := x.2.2.submitted.map ((), ·) ++ s.submitted } := by
    rw [workerStep, h]
    rfl
  exact ⟨_, hstep, rfl, rfl, rfl, rfl, rfl⟩

theorem mining_first : ∃ s, (machine Unit fun _ => 1).ReachableIf Owned s ∧ Mining 0 s := by
  have hm : (machine Unit fun _ => 1).Meets Owned (init (Miner.sample 1))
      (launchJob ++ steps 9) := by
    decide +kernel
  have hrun : ((machine Unit fun _ => 1).run (init (Miner.sample 1)) (launchJob ++ steps 9)).any
      (fun s => decide (Mining 0 s)) = true := by
    decide +kernel
  obtain ⟨s, hs, hp⟩ := Machine.ReachableIf.exists_of_run init_sample hm hrun
  exact ⟨s, hs, of_decide_eq_true hp⟩

variable {s : Threads Unit fun _ => 1} {n : Nat}

/-- The worker has seen that its job is the current one. -/
theorem Mining.check (h : Mining n s) (hr : (machine Unit fun _ => 1).ReachableIf Owned s) :
    ∃ s', (machine Unit fun _ => 1).ReachableIf Owned s' ∧ s'.miner = s.miner ∧
      s'.worker () = (s.worker ()).goto .body ∧ s'.todo = [] ∧ s'.joining = false ∧
      s'.handled = true := by
  have hx : (s.worker ()).step s.miner true = some (CpuWorker.quiet s.miner
      ((s.worker ()).goto .body)) := by
    simp only [CpuWorker.step, h.pc, h.passes, if_true]
  have howned : s.Owned (.worker () true) := by
    intro r hr
    simp [CpuWorker.asks, h.pc] at hr
  obtain ⟨s', hstep, hminer, hworker, htodo, hjoin, hhandled⟩ := step_unit hx
  exact ⟨s', hr.step howned hstep, hminer, hworker, htodo.trans h.todo, hjoin.trans h.joining,
    hhandled.trans h.mines.1⟩

/-- The worker takes the step that it has checked, whatever became of the miner. -/
theorem body_unit {t : Threads Unit fun _ => 1} (h : Mining n s)
    (hn : n + 1 ≤ 2 ^ 15 * (2 ^ 9 - 1)) (hworker : t.worker () = (s.worker ()).goto .body)
    (hnonces : t.miner.nonce.nonces userIndex = s.miner.nonce.nonces userIndex) :
    ∃ s' counter, step t (.worker () true) = some s' ∧
      s'.miner = { t.miner with
        nonce := t.miner.nonce.advance userIndex counter (n + 1 == 2 ^ 15 * (2 ^ 9 - 1)) } ∧
      counter.toNat = 2 ^ 15 * ((n + 1) / 2 ^ 15 + 1) ∧
      s'.worker () = ((t.worker ()).body t.miner.nonce true).2.1 ∧
      (s'.worker ()).pc = .inner ∧ s'.todo = t.todo ∧ s'.joining = t.joining ∧
      s'.handled = t.handled := by
  have hjob : (t.worker ()).job = (s.worker ()).job := by
    rw [hworker]
    rfl
  have hround := h.round
  have hcounter := h.counter
  rw [← hnonces, ← h.round] at hcounter
  obtain ⟨hok, counter, hσ, hnext⟩ :=
    WorkerJob.nextRound_advance h.index h.mask hcounter (by rwa [hround])
  rw [hround] at hσ hnext
  rw [← hjob] at hok hσ
  have hx : (t.worker ()).step t.miner true =
      some ((t.worker ()).body t.miner.nonce true) := by
    have hpc : (t.worker ()).pc = .body := by
      rw [hworker]
      rfl
    simp only [CpuWorker.step, hpc]
  obtain ⟨s', hstep, hminer, hself, htodo, hjoin, hhandled⟩ := step_unit hx
  rw [CpuWorker.body_fst, hσ] at hminer
  refine ⟨s', counter, hstep, hminer, hnext, hself, ?_, htodo, hjoin, hhandled⟩
  rw [hself]
  exact CpuWorker.body_pc_of_ok hok

/-- Its job is the miner's, so it may take the last window. -/
theorem Mining.owned (h : Mining n s) {t : Threads Unit fun _ => 1} (hminer : t.miner = s.miner)
    (hworker : t.worker () = (s.worker ()).goto .body) (hn : n < 2 ^ 24) :
    t.Owned (.worker () true) := by
  intro r hasks
  have hr : r = (userIndex, 0xFFFFFF) := by
    rw [hworker, CpuWorker.asks] at hasks
    change r ∈ (if (s.worker ()).job.atBoundary reserveCount then
      some ((s.worker ()).job.index, (s.worker ()).job.nonceMask) else none) at hasks
    split at hasks
    · rw [h.index, h.mask] at hasks
      exact (Option.some.inj hasks).symm
    · exact absurd hasks (Option.not_mem_none r)
  have hcounter := h.counter
  rw [hr, hminer, h.jobIndex, h.jobMask]
  refine ⟨?_, fun _ _ => .inl ⟨rfl, Nat.le_refl _⟩⟩
  rw [hcounter, WorkerJob.toNat_reserveCount, Nat.one_mul]
  omega

/-- A round of the miner's job. -/
theorem Mining.next (h : Mining n s) (hn : n + 1 ≤ 2 ^ 15 * (2 ^ 9 - 1))
    (hr : (machine Unit fun _ => 1).ReachableIf Owned s) :
    ∃ s', (machine Unit fun _ => 1).ReachableIf Owned s' ∧ s'.Mines ∧
      s'.miner.nonce.paused = (n + 1 == 2 ^ 15 * (2 ^ 9 - 1)) ∧
      (n + 1 < 2 ^ 15 * (2 ^ 9 - 1) → Mining (n + 1) s') := by
  obtain ⟨t, ht, hminer, hworker, htodo, hjoin, hhandled⟩ := h.check hr
  obtain ⟨s', counter, hstep, hminer', hcounter, hself, hpc, htodo', hjoin', hhandled'⟩ :=
    body_unit h hn hworker (by rw [hminer])
  have howned := h.owned hminer hworker (by omega)
  rw [hminer] at hminer' hself
  obtain ⟨-, hactive, henabled⟩ := h.mines
  have hmines : s'.Mines := by
    refine ⟨hhandled'.trans hhandled, ?_, ?_⟩ <;> rw [hminer'] <;> assumption
  have hpaused : s'.miner.nonce.paused = (n + 1 == 2 ^ 15 * (2 ^ 9 - 1)) := by
    rw [hminer', Nonce.advance_paused, h.paused, Bool.false_or]
  refine ⟨s', ht.step howned hstep, hmines, hpaused, fun hlt => ?_⟩
  have hjob : (s'.worker ()).job =
      ((s.worker ()).job.nextRound s.miner.nonce reserveCount 1).2.1 := by
    rw [hself, CpuWorker.body_job, hworker]
    rfl
  have hsame := WorkerJob.sameJob_nextRound s.miner.nonce (s.worker ()).job reserveCount 1
  rw [← hjob] at hsame
  constructor
  · exact htodo'.trans htodo
  · exact hjoin'.trans hjoin
  · exact hmines
  · rw [hminer']
    exact h.jobIndex
  · rw [hminer']
    exact h.jobMask
  · rw [hminer']
    exact h.upToDate
  · rw [hpaused]
    exact beq_eq_false_iff_ne.mpr (by omega)
  · exact hpc
  · have halgorithm : (s'.worker ()).algorithm = (s.worker ()).algorithm := by
      rw [hself, CpuWorker.body_algorithm, hworker]
      rfl
    have hpasses := h.passes
    unfold CpuWorker.passes Nonce.isOutdated at hpasses ⊢
    rwa [hsame.sequence, hsame.algorithm, halgorithm, hminer']
  · rw [hsame.index, h.index]
  · rw [hsame.nonceMask, h.mask]
  · rw [hjob, WorkerJob.round_nextRound, UInt32.toNat_add, h.round]
    exact Nat.mod_eq_of_lt (by change n + 1 < _; omega)
  · rw [hminer', Nonce.advance_nonces, hcounter]

/-- The worker mines as long as its window is not the last one. -/
theorem exists_mining (hn : n < 2 ^ 15 * (2 ^ 9 - 1)) :
    ∃ s, (machine Unit fun _ => 1).ReachableIf Owned s ∧ Mining n s := by
  induction n with
  | zero => exact mining_first
  | succ n ih =>
      obtain ⟨s, hr, h⟩ := ih (by omega)
      obtain ⟨s', hr', -, -, hmining⟩ := h.next (by omega) hr
      exact ⟨s', hr', hmining hn⟩

/-- A miner whose only worker takes the last window of the miner's job. -/
theorem exhausted_of_paused_last : ∃ s : Threads Unit fun _ => 1,
    s.Mines ∧ s.miner.nonce.paused = true ∧ s.miner.Exhausted := by
  have hlast : 2 ^ 15 * (2 ^ 9 - 1) - 1 < 2 ^ 15 * (2 ^ 9 - 1) := by decide
  obtain ⟨s, hr, h⟩ := exists_mining hlast
  obtain ⟨s', hr', hmines, hpaused, -⟩ := h.next (by omega) hr
  exact ⟨s', hmines, hpaused, exhausted_of_paused hr' hmines hpaused⟩

theorem reachable_main {t u : Threads Unit fun _ => 1} {a : Action} {todo : List Action}
    (hr : (machine Unit fun _ => 1).Reachable t) (hjoin : t.joining = false)
    (htodo : t.todo = a :: todo) (hexec : exec { t with todo } a = u) :
    (machine Unit fun _ => 1).Reachable u := by
  subst hexec
  exact hr.step (e := .main) trivial (mainStep_exec hjoin htodo)

/-- A donation job is set and handled; the worker goes on. -/
theorem reachable_donate {t : Threads Unit fun _ => 1}
    (hr : (machine Unit fun _ => 1).Reachable t) (htodo : t.todo = []) (hjoin : t.joining = false)
    (henabled : t.miner.enabled = true) (hindex : t.miner.job.index = userIndex)
    (hon : t.miner.config.cpu.isEnabled = true)
    (hup : t.miner.backend.upToDate t.miner.config.cpu (.sample "2") = true) :
    ∃ u, (machine Unit fun _ => 1).Reachable u ∧ u.worker () = t.worker () ∧ u.Mines ∧
      u.miner.nonce.nonces = Function.update t.miner.nonce.nonces donateIndex 0 ∧
      u.miner.job.index = donateIndex := by
  let c : Call := .setJob (.sample "2") true true true
  let m : Miner := { t.miner.store (.sample "2") true with active := true }
  let m' : Miner := { m with nonce := m.nonce.reset donateIndex }
  let during (miner : Miner) (todo : List Action) (stored handled : Bool) :
      Threads Unit fun _ => 1 := { t with miner, todo, stored, handled }
  have hreset : m.resetCounter = m' := by
    refine if_pos ?_
    simp [m, Miner.store, hindex]
  have hbackend : setBackendJob m' = (m', []) := by
    have hon : (!m'.config.cpu.isEnabled) = false := congrArg _ hon
    have hsame : m'.backend.upToDate m'.config.cpu m'.job = true := hup
    simp only [setBackendJob, hon, hsame, if_true, Bool.false_eq_true, if_false]
  have hunpause : m'.touch.unpause = { m'.touch with nonce := m'.touch.nonce.pause false } := by
    refine if_pos ?_
    have henabled' : m'.touch.enabled = true := henabled
    rw [henabled']
    rfl
  have hcall : (machine Unit fun _ => 1).step t (.call c) =
      some (during t.miner [.store (.sample "2") true true] t.stored t.handled) :=
    step_call hjoin htodo c
  have hstored : (machine Unit fun _ => 1).Reachable (during m handleJobChange true false) :=
    reachable_main (hr.step trivial hcall) hjoin rfl rfl
  have hpaused : (machine Unit fun _ => 1).Reachable
      (during m handleJobChange.tail true false) :=
    reachable_main hstored hjoin rfl (congrArg (during · handleJobChange.tail true false)
      (if_pos henabled : m.pauseIfDisabled = m))
  have hcleared : (machine Unit fun _ => 1).Reachable
      (during m' handleJobChange.tail.tail true false) :=
    reachable_main hpaused hjoin rfl
      (congrArg (during · handleJobChange.tail.tail true false) hreset)
  have hset : (machine Unit fun _ => 1).Reachable
      (during m' [.touch, .unpause, .startTimer] true false) :=
    reachable_main hcleared hjoin rfl (congrArg
      (fun x => during x.1 (x.2 ++ [.touch, .unpause, .startTimer]) true false) hbackend)
  have htouched : (machine Unit fun _ => 1).Reachable
      (during m'.touch [.unpause, .startTimer] false false) :=
    reachable_main hset hjoin rfl rfl
  have hdone : (machine Unit fun _ => 1).Reachable
      (during { m'.touch with nonce := m'.touch.nonce.pause false } [.startTimer] false true) :=
    reachable_main htouched hjoin rfl (congrArg (during · [.startTimer] false true) hunpause)
  exact ⟨_, hdone, rfl, ⟨rfl, rfl, henabled⟩, rfl, rfl⟩

/-- **A stale worker stalls the miner.**  It has checked its job; then a donation job is set and
handled, and the round takes the last window of the job before. -/
theorem stalls : ∃ s : Threads Unit fun _ => 1, (machine Unit fun _ => 1).Reachable s ∧
    s.Mines ∧ s.miner.nonce.paused = true ∧ ¬ s.miner.Exhausted := by
  have hbefore : 2 ^ 15 * (2 ^ 9 - 1) - 1 < 2 ^ 15 * (2 ^ 9 - 1) := by decide
  obtain ⟨s, hr, h⟩ := exists_mining hbefore
  obtain ⟨t, ht, hminer, hworker, htodo, hjoin, -⟩ := h.check hr
  obtain ⟨u, hu, hkept, hmines, hnonces, hindex⟩ :=
    reachable_donate (ht.mono fun _ _ _ => trivial) htodo hjoin (by rw [hminer]; exact h.mines.2.2)
      (by rw [hminer]; exact h.jobIndex) (by rw [hminer]; exact h.upToDate.1)
      (by rw [hminer]; exact h.upToDate.2)
  obtain ⟨s', counter, hstep, hminer', -, -, -, -, -, hhandled'⟩ :=
    body_unit h (by omega) (hkept.trans hworker) (by rw [hnonces, hminer]; rfl)
  obtain ⟨hhandled, hactive, henabled⟩ := hmines
  have hlast : (machine Unit fun _ => 1).step u (.worker () true) = some s' := hstep
  refine ⟨s', hu.step trivial hlast, ?_, ?_, ?_⟩
  · refine ⟨hhandled'.trans hhandled, ?_, ?_⟩ <;> rw [hminer'] <;> assumption
  · rw [hminer', Nonce.advance_paused]
    exact Bool.or_true _
  · have hzero : s'.miner.nonce.nonces s'.miner.job.index = 0 := by
      rw [hminer', hindex, Nonce.advance_nonces_of_ne (by decide), hnonces]
      rfl
    unfold Miner.Exhausted
    rw [hzero]
    exact Nat.not_lt_zero _

end Threads

end XLArig
