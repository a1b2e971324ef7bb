import XLArig.Threads.Sequence

/-!
# XLArig.Threads.Current

Which job a worker that considers itself up to date works on.

A worker copies the miner's job in one step and records the sequence number in the
next.  If the miner has stored and touched another job in between, the worker holds
the old job under the new number.  In the runs in which no worker does so, a worker
that is up to date has the miner's job, but between a store and the touch that follows
(`current_of_passes`).
-/

namespace XLArig.Threads

variable [Features] [Hasher] {ι : Type*} {N : ι → Nat} {s s' : Threads ι N}

/-- A worker records the sequence number of the job it copied: the miner still has
that job, or the number of the next one is not out yet. -/
def Copied (s : Threads ι N) (e : Event ι) : Prop :=
  s.Room e ∧
    match e with
    | .worker w _ => (s.worker w).pc.adds = true →
        (s.worker w).next.isEqual s.miner.job = true ∨ s.stored = true
    | _ => True

instance (s : Threads ι N) : (e : Event ι) → Decidable (s.Copied e)
  | .worker .. => inferInstanceAs (Decidable (_ ∧ (_ → _)))
  | .call _ | .main => inferInstanceAs (Decidable (_ ∧ True))

/-- Every worker that is left has recorded a number that was out, not 0 if it has a
job; if it is the last one, the worker has the miner's job. -/
structure Recent (s : Threads ι N) : Prop where
  started : s.Started
  recorded : s.miner.nonce.sequence .CPU ≠ 0 → ∀ w, (s.worker w).pc ≠ .done →
    (s.worker w).job.sequence ≤ s.miner.nonce.sequence .CPU
  held : s.miner.nonce.sequence .CPU ≠ 0 → ∀ w, (s.worker w).pc ≠ .done →
    (s.worker w).slot.held = true → (s.worker w).job.sequence ≠ 0
  current : s.stored = false → ∀ w, (s.worker w).pc ≠ .done →
    (s.worker w).passes s.miner.nonce = true →
    (s.worker w).job.currentJob.isEqual s.miner.job = true

/-- A worker that is left keeps its job while the number becomes 0. -/
theorem Recent.zero (h : s.Recent) (h0 : s'.miner.nonce.sequence .CPU = 0)
    (hworker : s'.worker = s.worker) (hjob : s'.miner.job = s.miner.job)
    (hstored : s'.stored = s.stored) :
    s'.stored = false → ∀ w, (s'.worker w).pc ≠ .done →
      (s'.worker w).passes s'.miner.nonce = true →
      (s'.worker w).job.currentJob.isEqual s'.miner.job = true := by
  rw [hworker, hjob, hstored]
  intro hst w hpc hpass
  have hsound := h.started.sound w
  obtain ⟨hseq, hl3⟩ := CpuWorker.passes_iff.mp hpass
  rw [h0] at hseq
  by_cases hs0 : s.miner.nonce.sequence .CPU = 0
  · exact h.current hst w hpc (CpuWorker.passes_iff.mpr ⟨hseq.trans hs0.symm, hl3⟩)
  · exact absurd hseq (h.held hs0 w hpc (hsound.of_l3 hpc hl3).1)

theorem Recent.effect {e : Event ι} (h : s.Recent) (he : s.Effect e s') (hg : s.Copied e) :
    s'.Recent := by
  have hstarted : s'.Started := h.started.effect he hg.1
  cases he with
  | frame hf =>
      refine ⟨hstarted, ?_, ?_, ?_⟩
      · rw [hf.sequence, hf.worker]
        exact h.recorded
      · rw [hf.sequence, hf.worker]
        exact h.held
      · intro hst w
        simp only [CpuWorker.passes_iff, hf.sequence, hf.worker, hf.job]
        simpa only [CpuWorker.passes_iff] using h.current (hf.stored ▸ hst) w
  | @touch todo hjoin htodo =>
      have hroom : s.miner.nonce.sequence .CPU + 1 ≠ 0 := hg.1 .touch (by rw [htodo]; rfl) rfl
      have hold : ∀ w, (s.worker w).pc ≠ .done → s.miner.nonce.sequence .CPU ≠ 0 :=
        fun w hpc h0 => hpc (h.started.ended_of_zero hjoin htodo nofun h0 w)
      refine ⟨hstarted, ?_, ?_, ?_⟩
      · intro _ w hpc
        have hle := h.recorded (hold w hpc) w hpc
        show (s.worker w).job.sequence ≤ s.miner.nonce.sequence .CPU + 1
        grind
      · exact fun _ w hpc => h.held (hold w hpc) w hpc
      · intro _ w hpc hpass
        have hle := h.recorded (hold w hpc) w hpc
        have hseq : (s.worker w).job.sequence = s.miner.nonce.sequence .CPU + 1 :=
          (CpuWorker.passes_iff.mp hpass).1
        grind
  | store hjoin htodo => exact ⟨hstarted, h.recorded, h.held, nofun⟩
  | stopSequences hjoin htodo =>
      exact ⟨hstarted, fun h0 => absurd rfl h0, fun h0 => absurd rfl h0, h.zero rfl rfl rfl rfl⟩
  | stopBackend hjoin htodo hthreads =>
      exact ⟨hstarted, fun h0 => absurd rfl h0, fun h0 => absurd rfl h0, h.zero rfl rfl rfl rfl⟩
  | @launch todo threads hjoin htodo =>
      have hroom : s.miner.nonce.sequence .CPU + 1 ≠ 0 := hg.1 _ (by rw [htodo]; rfl) rfl
      refine ⟨hstarted, ?_, ?_, ?_⟩
      · intro _ w _
        show (CpuWorker.launch s.miner.backend.algo : CpuWorker (N w)).job.sequence ≤ _
        rw [(CpuWorker.launch_new _).1]
        exact UInt64.zero_le
      · intro _ w _ hheld
        exact absurd (hheld.symm.trans ((CpuWorker.launch_new s.miner.backend.algo).2 _)) (by decide)
      · intro _ w _ hpass
        have hseq := (CpuWorker.passes_iff.mp hpass).1
        exact absurd (hseq.symm.trans (CpuWorker.launch_new s.miner.backend.algo).1) hroom
  | join hjoin hended =>
      exact ⟨hstarted, fun _ w hpc => absurd (hended w) hpc, fun _ w hpc => absurd (hended w) hpc,
        fun _ w hpc => absurd (hended w) hpc⟩
  | @worker w answer x s' hs hm =>
      have hpc : (s.worker w).pc ≠ .done := alive_of_step hs
      obtain ⟨hkeeps, hstep⟩ := CpuWorker.step_records hs
      refine ⟨hstarted, ?_, ?_, ?_⟩
      · rw [hm.sequence]
        intro h0
        refine hm.forall (P := fun v u => u.pc ≠ .done → u.job.sequence ≤ _) ?_ (h.recorded h0)
        intro _
        obtain ⟨asleep, -, rfl⟩ | hrec := hstep
        · rw [CpuWorker.add_job, WorkerJob.add_sequence]
          exact UInt64.le_refl _
        · rw [hrec.sequence]
          exact h.recorded h0 w hpc
      · rw [hm.sequence]
        intro h0
        refine hm.forall (P := fun v u => u.pc ≠ .done → u.slot.held = true → u.job.sequence ≠ 0)
          ?_ (h.held h0)
        intro _
        obtain ⟨asleep, -, rfl⟩ | hrec := hstep
        · rw [CpuWorker.add_job, WorkerJob.add_sequence]
          exact fun _ => h0
        · rw [hrec.sequence, hrec.slot]
          exact h.held h0 w hpc
      · rw [hm.stored, hm.job]
        intro hst
        simp only [CpuWorker.passes_iff, hm.sequence]
        simp only [← CpuWorker.passes_iff]
        refine hm.forall (P := fun v u => u.pc ≠ .done → u.passes s.miner.nonce = true →
          u.job.currentJob.isEqual s.miner.job = true) ?_ (h.current hst)
        intro _ hpass
        obtain ⟨asleep, hadd, rfl⟩ | hrec := hstep
        · have hadds : (s.worker w).pc.adds = true := by rw [hadd]; rfl
          have hnext : (s.worker w).next.isEqual s.miner.job = true :=
            (hg.2 hadds).resolve_right (by rw [hst]; decide)
          rw [CpuWorker.add_job]
          exact Job.isEqual_trans (WorkerJob.isEqual_add ..) hnext
        · obtain ⟨hseq, hl3⟩ := CpuWorker.passes_iff.mp hpass
          rw [hrec.sequence] at hseq
          rw [hrec.algorithm, hrec.selfTest] at hl3
          have hsize := ((h.started.sound w).of_l3 hpc hl3).2
          rw [hrec.currentJob hsize]
          exact h.current hst w hpc (CpuWorker.passes_iff.mpr ⟨hseq, hl3⟩)

theorem recent_init (config : Config) : (init config : Threads ι N).Recent where
  started := started_init config
  recorded _ _ h := absurd rfl h
  held _ _ h := absurd rfl h
  current _ _ h := absurd rfl h

variable [Fintype ι] [DecidableEq ι]

/-- **A worker that is up to date has the miner's job**, in every run in which a worker
records the number of the job it copied, and whenever no job was stored since the
numbers were last touched. -/
theorem current_of_passes (h : (machine ι N).ReachableIf Copied s) (w : ι)
    (hpc : (s.worker w).pc ≠ .done) (hpass : (s.worker w).passes s.miner.nonce = true)
    (hstored : s.stored = false) :
    (s.worker w).job.currentJob.isEqual s.miner.job = true := by
  have hrecent : s.Recent := by
    apply h.invariant
    · rintro s ⟨config, rfl⟩
      exact recent_init config
    · exact fun _ _ _ hs hg hstep => hs.effect (step_effect hstep) hg
  exact hrecent.current hstored w hpc hpass

end XLArig.Threads

namespace XLArig.Threads

/-! ## Runs of one worker -/

/-- The worker consumes the first job and starts to hash it. -/
theorem current_of_passes_first : ∃ s : Threads Unit fun _ => 1,
    (s.worker ()).passes s.miner.nonce = true ∧
      (s.worker ()).job.currentJob.isEqual s.miner.job = true := by
  have hm : (machine Unit fun _ => 1).Meets Copied (init (Miner.sample 1)) (launchJob ++ steps 9) := by
    decide +kernel
  have hrun : ((machine Unit fun _ => 1).run (init (Miner.sample 1)) (launchJob ++ steps 9)).any
      (fun s => decide ((s.worker ()).pc = .inner ∧ (s.worker ()).passes s.miner.nonce = true ∧
        s.stored = false)) = true := by
    decide +kernel
  obtain ⟨s, hs, hp⟩ := Machine.ReachableIf.exists_of_run init_sample hm hrun
  obtain ⟨hpc, hpass, hstored⟩ := of_decide_eq_true hp
  exact ⟨s, hpass, current_of_passes hs () (by rw [hpc]; decide) hpass hstored⟩

/-- **A worker hashes a superseded job.**  It has copied the first job when the second
one is set, and records the number of the second. -/
theorem hashes_superseded : ∃ s : Threads Unit fun _ => 1, (machine Unit fun _ => 1).Reachable s ∧
    (s.worker ()).pc = .inner ∧ (s.worker ()).passes s.miner.nonce = true ∧ s.stored = false ∧
      (s.worker ()).job.currentJob.isEqual s.miner.job = false := by
  let events := launchJob ++ steps 5 ++
    .call (.setJob (.sample "2") false false true) :: actions 7 ++ steps 4
  have hrun : ((machine Unit fun _ => 1).run (init (Miner.sample 1)) events).any
      (fun s => decide ((s.worker ()).pc = .inner ∧ (s.worker ()).passes s.miner.nonce = true ∧
        s.stored = false ∧ (s.worker ()).job.currentJob.isEqual s.miner.job = false)) = true := by
    decide +kernel
  obtain ⟨s, hs, hp⟩ := Machine.Reachable.exists_of_run init_sample hrun
  exact ⟨s, hs, of_decide_eq_true hp⟩

end XLArig.Threads
