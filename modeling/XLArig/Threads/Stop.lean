import XLArig.Threads.Sequence

/-!
# XLArig.Threads.Stop

How the workers notice a stop.

`Nonce::stop` writes 0, and `CpuWorker` checks for it before it consumes a job.  Between
the check and `WorkerJob::add`, which records the number, the worker does not look
again: a stop that comes there is recorded with the job, and the worker is up to date.
In the runs in which no stop comes there, every worker that the main thread waits for
leaves its loops, after the hash it is in (`notices_stop`).
-/

namespace XLArig

/-- How many steps a worker that is stopped has left at most. -/
def Pc.rank : Pc → Nat
  | .done => 0
  | .outer | .wake => 1
  | .sleepSequence | .consume false | .allocate false => 2
  | .sleep | .inner => 3
  | .paused | .consume true | .allocate true | .body => 4
  | .copy _ | .add _ => 5

theorem Pc.rank_le {pc : Pc} (h : pc.consumes = false) : pc.rank ≤ 4 := by
  cases pc with
  | copy | add => contradiction
  | consume asleep | allocate asleep => cases asleep <;> decide
  | _ => decide

namespace CpuWorker

variable [Features] [Hasher] {N : Nat} {s : Miner} {w : CpuWorker N} {answer : Bool}
variable {x : Nonce × CpuWorker N × Trace}

theorem body_pc (σ : Nonce) (w : CpuWorker N) (valid : Bool) :
    (w.body σ valid).2.1.pc = .consume false ∨ (w.body σ valid).2.1.pc = .inner := by
  unfold body
  dsimp only
  split
  · exact .inl rfl
  · exact .inr rfl

/-- After a pause the job is consumed before the inner loop, else after it. -/
theorem leave_pc (w : CpuWorker N) (asleep : Bool) :
    (w.leave asleep).pc = if asleep then .inner else .outer := by
  unfold leave
  split <;> rfl

/-- A worker consumes a job after it has found that the backend does not stop. -/
theorem step_consumes (hs : w.step s answer = some x) (h : x.2.1.pc.consumes = true) :
    s.nonce.sequence .CPU ≠ 0 ∨ w.pc.consumes = true := by
  cases hpc : w.pc with
  | consume asleep =>
      simp only [step, hpc, Option.some.injEq] at hs
      subst hs
      left
      intro h0
      simp only [quiet, h0, beq_self_eq_true, if_true, leave_pc] at h
      cases asleep <;> contradiction
  | copy | add => exact .inr rfl
  | outer | sleep | sleepSequence | wake | inner =>
      simp only [step, hpc, Option.some.injEq] at hs
      subst hs
      simp only [quiet, goto] at h
      split at h <;> contradiction
  | paused =>
      simp only [step, hpc, Option.some.injEq] at hs
      subst hs
      simp only [quiet] at h
      split at h <;> contradiction
  | allocate asleep =>
      simp only [step, hpc, Option.some.injEq] at hs
      subst hs
      simp only [quiet] at h
      split at h
      · rw [hpc] at h
        contradiction
      · rw [leave_pc] at h
        cases asleep <;> contradiction
  | body =>
      simp only [step, hpc, Option.some.injEq] at hs
      subst hs
      obtain hbody | hbody := body_pc s.nonce w answer <;> rw [hbody] at h <;> contradiction
  | done =>
      rw [step, hpc] at hs
      contradiction

theorem add_hashed (σ : Nonce) (w : CpuWorker N) (asleep : Bool) :
    (w.add σ asleep).2.2.hashed = [] := by
  unfold add
  dsimp only
  split <;> rfl

theorem body_hashed (σ : Nonce) (w : CpuWorker N) (valid : Bool) :
    (w.body σ valid).2.2.hashed = w.hashed := by
  unfold body
  dsimp only
  split <;> rfl

/-- A worker hashes in the body of its inner loop. -/
theorem step_hashed (hs : w.step s answer = some x) :
    x.2.2.hashed = if w.pc = .body then w.hashed else [] := by
  split
  · next hpc =>
    simp only [step, hpc, Option.some.injEq] at hs
    subst hs
    exact body_hashed ..
  · next hpc =>
    obtain ⟨w', rfl, -⟩ | ⟨asleep, -, rfl⟩ | ⟨hbody, -⟩ := step_cases hs
    · rfl
    · exact add_hashed ..
    · exact absurd hbody hpc

/-- While the backend stops, a worker that is not up to date comes closer to its end,
and begins no hash. -/
theorem rank_step (hs : w.step s answer = some x) (h0 : s.nonce.sequence .CPU = 0)
    (hpc : w.pc.consumes = false) (hpass : w.pc ≠ .done → w.passes s.nonce = false) :
    x.2.1.pc.rank < w.pc.rank ∧ x.2.1.pc ≠ .body := by
  cases hw : w.pc with
  | consume asleep =>
      simp only [step, hw, Option.some.injEq] at hs
      subst hs
      simp only [quiet, h0, beq_self_eq_true, if_true, leave_pc]
      cases asleep <;> decide
  | copy | add =>
      rw [hw] at hpc
      contradiction
  | outer | sleepSequence | wake =>
      simp only [step, hw, h0, Option.some.injEq] at hs
      subst hs
      simp [quiet, goto, Pc.rank]
  | sleep =>
      simp only [step, hw, Option.some.injEq] at hs
      subst hs
      simp only [quiet, goto]
      split <;> decide
  | inner =>
      simp only [step, hw, hpass (by rw [hw]; decide), Option.some.injEq] at hs
      subst hs
      simp [quiet, goto, Pc.rank]
  | paused =>
      simp only [step, hw, Option.some.injEq] at hs
      subst hs
      simp only [quiet]
      split <;> simp [goto, enter, Pc.rank]
  | allocate asleep =>
      simp only [step, hw, h0, Option.some.injEq] at hs
      subst hs
      simp only [quiet, beq_self_eq_true, Bool.not_true, Bool.and_false, Bool.false_eq_true, if_false,
        leave_pc]
      cases asleep <;> decide
  | body =>
      simp only [step, hw, Option.some.injEq] at hs
      subst hs
      obtain hbody | hbody := body_pc s.nonce w answer <;> rw [hbody] <;> decide
  | done =>
      rw [step, hw] at hs
      contradiction

end CpuWorker

namespace Threads

variable [Features] [Hasher] {ι : Type*} {N : ι → Nat} {s s' : Threads ι N}

/-- The next action tells the workers to stop. -/
def Stops (s : Threads ι N) (a : Action) : Prop :=
  match a with
  | .stopSequences => True
  | .stopBackend => s.miner.backend.threads ≠ []
  | _ => False

instance (s : Threads ι N) : (a : Action) → Decidable (s.Stops a)
  | .stopSequences => inferInstanceAs (Decidable True)
  | .stopBackend => decidable_of_iff (s.miner.backend.threads.isEmpty = false) (by simp [Stops])
  | .pauseIfDisabled | .resetCounter | .setBackendJob | .touch | .unpause | .startTimer | .store ..
  | .deactivate | .setEnabled _ | .clearPause | .launch _ => inferInstanceAs (Decidable False)

/-- A stop does not come between a worker's check and its record of the number. -/
def Clear (s : Threads ι N) (e : Event ι) : Prop :=
  s.Room e ∧
    match e with
    | .main => s.joining = false → ∀ a ∈ s.todo.head?, s.Stops a →
        ∀ w, (s.worker w).pc.consumes = false
    | _ => True

instance [Fintype ι] (s : Threads ι N) : (e : Event ι) → Decidable (s.Clear e)
  | .main => inferInstanceAs (Decidable (_ ∧ (_ → ∀ a ∈ s.todo.head?, _ → ∀ _, _)))
  | .call _ | .worker .. => inferInstanceAs (Decidable (_ ∧ True))

/-- A worker that consumes a job has seen a number that is still not 0, and no worker has
recorded 0 with a job. -/
structure Noticed (s : Threads ι N) : Prop where
  started : s.Started
  consumes : ∀ w, (s.worker w).pc.consumes = true → s.miner.nonce.sequence .CPU ≠ 0
  held : ∀ w k, ((s.worker w).slots k).held = true → (s.worker w).job.sequence ≠ 0

theorem noticed_init (config : Config) : (init config : Threads ι N).Noticed where
  started := started_init config
  consumes _ := nofun
  held _ _ := nofun

theorem Noticed.effect {e : Event ι} (h : s.Noticed) (he : s.Effect e s') (hg : s.Clear e) :
    s'.Noticed := by
  have hstarted : s'.Started := h.started.effect he hg.1
  cases he with
  | frame hf =>
      refine ⟨hstarted, ?_, ?_⟩
      · rw [hf.sequence, hf.worker]
        exact h.consumes
      · rw [hf.worker]
        exact h.held
  | @touch todo hjoin htodo =>
      exact ⟨hstarted, fun _ _ => hg.1 .touch (by rw [htodo]; rfl) rfl, h.held⟩
  | store hjoin htodo => exact ⟨hstarted, h.consumes, h.held⟩
  | @stopSequences todo hjoin htodo =>
      have hclear := hg.2 hjoin .stopSequences (by rw [htodo]; rfl) trivial
      exact ⟨hstarted, fun w hw => absurd (hw.symm.trans (hclear w)) (by decide), h.held⟩
  | @stopBackend todo hjoin htodo hthreads =>
      have hclear := hg.2 hjoin .stopBackend (by rw [htodo]; rfl) hthreads
      exact ⟨hstarted, fun w hw => absurd (hw.symm.trans (hclear w)) (by decide), h.held⟩
  | @launch todo threads hjoin htodo =>
      refine ⟨hstarted, fun _ _ => hg.1 _ (by rw [htodo]; rfl) rfl, fun w k hheld => ?_⟩
      exact absurd (hheld.symm.trans ((CpuWorker.launch_new _).2 k)) (by decide)
  | join hjoin hended =>
      refine ⟨hstarted, fun w hw => ?_, h.held⟩
      have hdone : (s.worker w).pc.consumes = true := hw
      rw [hended w] at hdone
      contradiction
  | @worker w answer x s' hs hm =>
      refine ⟨hstarted, ?_, ?_⟩
      · rw [hm.sequence]
        refine hm.forall (P := fun v u => u.pc.consumes = true → _) ?_ h.consumes
        intro hx
        exact (CpuWorker.step_consumes hs hx).elim id (h.consumes w)
      · refine hm.forall (P := fun v u => ∀ k, (u.slots k).held = true → u.job.sequence ≠ 0) ?_ h.held
        obtain ⟨-, ⟨asleep, hadd, rfl⟩ | hrec⟩ := CpuWorker.step_records hs
        · intro k _
          rw [CpuWorker.add_job, WorkerJob.add_sequence]
          exact h.consumes w (by rw [hadd]; rfl)
        · intro k hk
          rw [hrec.sequence]
          exact h.held w k (hrec.held k ▸ hk)

/-! ## Joining the threads -/

/-- While the main thread waits, the number is 0: nobody is up to date, and nobody
consumes a job. -/
theorem Noticed.joining (h : s.Noticed) (hjoin : s.joining = true) (w : ι) :
    s.miner.nonce.sequence .CPU = 0 ∧ (s.worker w).pc.consumes = false ∧
      ((s.worker w).pc ≠ .done → (s.worker w).passes s.miner.nonce = false) := by
  have h0 : s.miner.nonce.sequence .CPU = 0 := h.started.joining hjoin
  refine ⟨h0, ?_, ?_⟩
  · cases hpc : (s.worker w).pc.consumes with
    | false => rfl
    | true => exact absurd h0 (h.consumes w hpc)
  · intro hpc
    by_contra hpass
    obtain ⟨hseq, hl3⟩ := CpuWorker.passes_iff.mp (Bool.not_eq_false _ ▸ hpass)
    exact h.held w _ ((h.started.sound w).of_l3 hpc hl3).1 (hseq.trans h0)

variable [DecidableEq ι]

/-- What worker `w` has hashed, the newest first. -/
def hashes (s : Threads ι N) (w : ι) : List Hashed :=
  s.hashed.filterMap fun x => if x.1 = w then some x.2 else none

/-- Worker `w` takes a step. -/
def Event.moves (w : ι) : Event ι → Bool
  | .worker v _ => decide (v = w)
  | _ => false

theorem hashes_workerStep {v w : ι} {answer : Bool} (h : s.workerStep v answer = some s') :
    s'.hashes w =
      (if v = w ∧ (s.worker w).pc = .body then (s.worker w).hashed else []) ++ s.hashes w := by
  obtain ⟨x, hx, rfl⟩ := workerStep_eq h
  simp only [hashes, List.filterMap_append, List.append_cancel_right_eq, CpuWorker.step_hashed hx]
  by_cases hvw : v = w
  · subst hvw
    simp
  · simp [hvw]

variable [Fintype ι]

/-- The workers run alone while the main thread waits: `w` leaves its loops, and hashes
no more than what it is hashing. -/
theorem Noticed.run {w : ι} {es : List (Event ι)} (h : s.Noticed) (hjoin : s.joining = true)
    (hes : ∀ e ∈ es, ∃ v answer, e = .worker v answer)
    (hrun : (machine ι N).run s es = some s') :
    es.countP (Event.moves w) ≤ (s.worker w).pc.rank ∧
      (s'.hashes w = s.hashes w ∨
        (s.worker w).pc = .body ∧ s'.hashes w = (s.worker w).hashed ++ s.hashes w) := by
  induction es generalizing s with
  | nil =>
      obtain rfl := Option.some.inj hrun
      exact ⟨Nat.zero_le _, .inl rfl⟩
  | cons e es ih =>
      obtain ⟨v, answer, rfl⟩ := hes e List.mem_cons_self
      obtain ⟨t, hstep, hrest⟩ := Option.bind_eq_some_iff.mp hrun
      obtain ⟨x, hx, ht⟩ := workerStep_eq hstep
      have hnoticed : t.Noticed := 
        h.effect (e := .worker v answer) (step_effect hstep) ⟨trivial, trivial⟩
      have hjoining : t.joining = true := by
        rw [ht]
        exact hjoin
      obtain ⟨hcount, hhashes⟩ :=
        ih hnoticed hjoining (fun e he => hes e (List.mem_cons_of_mem _ he)) hrest
      rw [hashes_workerStep hstep] at hhashes
      obtain ⟨h0, hpc, hpass⟩ := h.joining hjoin v
      by_cases hvw : v = w
      · subst hvw
        have hself : t.worker v = x.2.1 := by
          rw [ht]
          exact Function.update_self ..
        obtain ⟨hrank, hbody⟩ := CpuWorker.rank_step hx h0 hpc hpass
        rw [hself] at hcount hhashes
        constructor
        · simp only [List.countP_cons, Event.moves, decide_true, if_true]
          omega
        · have hnone := hhashes.resolve_right fun h => hbody h.1
          rw [hnone]
          by_cases hnow : (s.worker v).pc = .body
          · exact .inr ⟨hnow, by simp [hnow]⟩
          · exact .inl (by simp [hnow])
      · have hother : t.worker w = s.worker w := by
          rw [ht]
          exact Function.update_of_ne (Ne.symm hvw) ..
        rw [hother] at hcount hhashes
        constructor
        · simpa [List.countP_cons, Event.moves, hvw] using hcount
        · simpa [hvw] using hhashes

/-- **A stop is noticed by every worker**, in every run in which no stop comes between a
worker's check and its record of the number.  While the main thread waits, no worker is
up to date and none has recorded 0 with a job; and however the workers run on, each ends
within four of its steps and hashes no more than what it is hashing. -/
theorem notices_stop (h : (machine ι N).ReachableIf Clear s) (hjoin : s.joining = true) (w : ι) :
    ((s.worker w).pc ≠ .done → (s.worker w).passes s.miner.nonce = false) ∧
      (∀ k, ((s.worker w).slots k).held = true → (s.worker w).job.sequence ≠ 0) ∧
        ∀ es s', (∀ e ∈ es, ∃ v answer, e = .worker v answer) →
          (machine ι N).run s es = some s' →
            es.countP (Event.moves w) ≤ 4 ∧
              (s'.hashes w = s.hashes w ∨
                (s.worker w).pc = .body ∧ s'.hashes w = (s.worker w).hashed ++ s.hashes w) := by
  have hnoticed : s.Noticed := by
    apply h.invariant
    · rintro s ⟨config, rfl⟩
      exact noticed_init config
    · exact fun _ _ _ hs hg hstep => hs.effect (step_effect hstep) hg
  obtain ⟨-, hpc, hpass⟩ := hnoticed.joining hjoin w
  refine ⟨hpass, hnoticed.held w, fun es s' hes hrun => ?_⟩
  obtain ⟨hcount, hhashes⟩ := hnoticed.run (w := w) hjoin hes hrun
  exact ⟨hcount.trans (Pc.rank_le hpc), hhashes⟩

end Threads

end XLArig

namespace XLArig.Threads

/-! ## Runs of one worker -/

/-- The worker hashes when it is told to stop. -/
theorem notices_stop_hashing : ∃ s : Threads Unit fun _ => 1, s.joining = true ∧
    (s.worker ()).pc = .body ∧ (s.worker ()).passes s.miner.nonce = false := by
  let events := launchJob ++ steps 10 ++ .call .stop :: actions 3
  have hm : (machine Unit fun _ => 1).Meets Clear (init (Miner.sample 1)) events := by
    decide +kernel
  have hrun : ((machine Unit fun _ => 1).run (init (Miner.sample 1)) events).any
      (fun s => decide (s.joining = true ∧ (s.worker ()).pc = .body)) = true := by
    decide +kernel
  obtain ⟨s, hs, hp⟩ := Machine.ReachableIf.exists_of_run init_sample hm hrun
  obtain ⟨hjoin, hpc⟩ := of_decide_eq_true hp
  exact ⟨s, hjoin, hpc, (notices_stop hs hjoin ()).1 (by rw [hpc]; decide)⟩

/-- **A worker misses the stop.**  `Nonce::stop` first ends the pause; the worker wakes
up and has copied its job when the number becomes 0, and records it.  The main thread
waits for a worker that considers itself up to date. -/
theorem misses_stop : ∃ s : Threads Unit fun _ => 1, (machine Unit fun _ => 1).Reachable s ∧
    s.joining = true ∧ (s.worker ()).pc = .inner ∧ (s.worker ()).slot.held = true ∧
      (s.worker ()).job.sequence = 0 ∧ (s.worker ()).passes s.miner.nonce = true := by
  let events := launchJob ++ steps 1 ++ .call (.setEnabled false) :: actions 2 ++ steps 1 ++
    .call .stop :: actions 1 ++ steps 4 ++ actions 2 ++ steps 2
  have hrun : ((machine Unit fun _ => 1).run (init (Miner.sample 1)) events).any
      (fun s => decide (s.joining = true ∧ (s.worker ()).pc = .inner ∧
        (s.worker ()).slot.held = true ∧ (s.worker ()).job.sequence = 0 ∧
        (s.worker ()).passes s.miner.nonce = true)) = true := by
    decide +kernel
  obtain ⟨s, hs, hp⟩ := Machine.Reachable.exists_of_run init_sample hrun
  exact ⟨s, hs, of_decide_eq_true hp⟩

end XLArig.Threads
