import XLArig.Threads

/-!
# XLArig.Threads.Calls

The actions of a call, taken one after the other, are the function of
`XLArig.Miner`: if no worker is left to wait for, the main thread runs to the end
of the call and has then made the miner what the function makes it (`run_call`).
-/

namespace XLArig.Threads

variable [Features] [Hasher] {ι : Type*} [Fintype ι] [DecidableEq ι] {N : ι → Nat}
variable {s s' t : Threads ι N} {m m' : Miner} {todo : List Action} {ended : Prop}

/-! ## Running alone -/

/-- The main thread alone leads from `s` to `s'`. -/
def Runs (s s' : Threads ι N) : Prop :=
  ∃ n, (machine ι N).run s (List.replicate n .main) = some s'

theorem Runs.refl (s : Threads ι N) : Runs s s := ⟨0, rfl⟩

/-- One step, and then some more. -/
theorem Runs.step (h : s.mainStep = some t) (h' : Runs t s') : Runs s s' := by
  obtain ⟨n, hn⟩ := h'
  refine ⟨n + 1, ?_⟩
  show (s.mainStep).bind _ = some s'
  rw [h]
  exact hn

/-- The main thread alone completes its call and has made the miner `m`. -/
def Drains (s : Threads ι N) (m : Miner) : Prop :=
  ∃ s', Runs s s' ∧ s'.todo = [] ∧ s'.joining = false ∧ s'.miner = m

theorem Drains.step (h : s.mainStep = some t) (h' : t.Drains m) : s.Drains m := by
  obtain ⟨s', hruns, hrest⟩ := h'
  exact ⟨s', hruns.step h, hrest⟩

variable (ι N) in
/-- From any state with miner `m` and actions `todo`, without workers if `ended`,
the main thread alone makes the miner `m'`. -/
def Finishes (ended : Prop) (m : Miner) (todo : List Action) (m' : Miner) : Prop :=
  ∀ s : Threads ι N, s.joining = false → s.todo = todo → s.miner = m →
    (ended → s.Ended) → s.Drains m'

theorem Finishes.nil : Finishes ι N ended m [] m :=
  fun s hjoin htodo hminer _ => ⟨s, .refl s, htodo, hjoin, hminer⟩

theorem Finishes.weaken (h : Finishes ι N False m todo m') : Finishes ι N ended m todo m' :=
  fun s hjoin htodo hminer _ => h s hjoin htodo hminer False.elim

/-- An action that only changes the miner. -/
theorem Finishes.exec {a : Action} {f : Miner → Miner}
    (ha : ∀ s : Threads ι N, (s.exec a).miner = f s.miner ∧ (s.exec a).todo = s.todo ∧
      (s.exec a).joining = s.joining ∧ (s.exec a).worker = s.worker)
    (h : Finishes ι N ended (f m) todo m') : Finishes ι N ended m (a :: todo) m' := by
  intro s hjoin htodo hminer hended
  obtain ⟨hm, ht, hj, hw⟩ := ha { s with todo }
  refine (h (Threads.exec { s with todo } a) ?_ ht ?_ ?_).step (mainStep_exec hjoin htodo)
  · rw [hj]
    exact hjoin
  · rw [hm, ← hminer]
  · intro he w
    rw [hw]
    exact hended he w

/-! ## The actions -/

theorem Finishes.touch (h : Finishes ι N ended m.touch todo m') :
    Finishes ι N ended m (.touch :: todo) m' := h.exec fun _ => ⟨rfl, rfl, rfl, rfl⟩

/-- `CpuBackend::stop`, with no worker to wait for. -/
theorem Finishes.stopBackend
    (h : Finishes ι N True { m with
      nonce := (m.backend.stop m.nonce).1
      backend := (m.backend.stop m.nonce).2 } todo m') :
    Finishes ι N True m (.stopBackend :: todo) m' := by
  intro s hjoin htodo hminer hended
  subst hminer
  unfold CpuBackend.stop at h
  by_cases hthreads : s.miner.backend.threads = []
  · rw [if_pos hthreads] at h
    refine (h { s with todo } hjoin rfl rfl hended).step ?_
    rw [mainStep_exec hjoin htodo]
    simp only [Threads.exec, if_pos hthreads]
  · rw [if_neg hthreads] at h
    let t : Threads ι N := { s with
      todo
      miner := { s.miner with nonce := s.miner.nonce.stopBackend .CPU }
      joining := true }
    have hjoined : t.mainStep = some t.join := mainStep_join rfl (hended trivial)
    refine ((h t.join rfl rfl rfl hended).step hjoined).step ?_
    rw [mainStep_exec hjoin htodo]
    simp only [Threads.exec, if_neg hthreads, t]

theorem Finishes.launch {threads : List CpuLaunchData}
    (h : Finishes ι N False { m with
      nonce := CpuBackend.startWorkers m.nonce
      backend := { m.backend with threads } } todo m') :
    Finishes ι N ended m (.launch threads :: todo) m' := by
  intro s hjoin htodo hminer hended
  subst hminer
  exact (h (Threads.exec { s with todo } (.launch threads)) hjoin rfl rfl False.elim).step
    (mainStep_exec hjoin htodo)

/-- An action that puts others in front of the rest. -/
theorem Finishes.push {a : Action} {f : Miner → Miner × List Action}
    (ha : ∀ s : Threads ι N, (s.exec a).miner = (f s.miner).1 ∧
      (s.exec a).todo = (f s.miner).2 ++ s.todo ∧ (s.exec a).joining = s.joining ∧
      (s.exec a).worker = s.worker)
    (h : Finishes ι N ended (f m).1 ((f m).2 ++ todo) m') :
    Finishes ι N ended m (a :: todo) m' := by
  intro s hjoin htodo hminer hended
  subst hminer
  obtain ⟨hm, ht, hj, hw⟩ := ha { s with todo }
  refine (h (Threads.exec { s with todo } a) ?_ ht hm ?_).step (mainStep_exec hjoin htodo)
  · rw [hj]
    exact hjoin
  · intro he w
    rw [hw]
    exact hended he w

/-- `CpuBackend::setJob`, with no worker to wait for. -/
theorem Finishes.setBackendJob (h : Finishes ι N False m.setBackendJob todo m') :
    Finishes ι N True m (.setBackendJob :: todo) m' := by
  apply Finishes.push (f := Threads.setBackendJob) fun _ => ⟨rfl, rfl, rfl, rfl⟩
  unfold Miner.setBackendJob CpuBackend.setJob at h
  unfold Threads.setBackendJob
  dsimp only at h ⊢
  split
  · next hen =>
    rw [if_pos hen] at h
    exact h.weaken.stopBackend
  · next hen =>
    rw [if_neg hen] at h
    split
    · next hup =>
      rw [if_pos hup] at h
      exact h.weaken
    · next hup =>
      rw [if_neg hup] at h
      split
      · next hnone =>
        rw [if_pos hnone] at h
        exact h.weaken.stopBackend
      · next hnone =>
        rw [if_neg hnone] at h
        exact h.launch.stopBackend

/-! ## The calls -/

theorem finishes_handleJobChange (m : Miner) :
    Finishes ι N True m handleJobChange m.handleJobChange := by
  apply Finishes.exec (f := Miner.pauseIfDisabled) fun _ => ⟨rfl, rfl, rfl, rfl⟩
  apply Finishes.exec (f := Miner.resetCounter) fun _ => ⟨rfl, rfl, rfl, rfl⟩
  apply Finishes.setBackendJob
  apply Finishes.touch
  apply Finishes.exec (f := Miner.unpause) fun _ => ⟨rfl, rfl, rfl, rfl⟩
  apply Finishes.exec (f := Miner.startTimer) fun _ => ⟨rfl, rfl, rfl, rfl⟩
  exact .nil

/-- `Nonce::stop` and `CpuBackend::stop`, with no worker to wait for. -/
theorem Finishes.stop (h : Finishes ι N True m.stop todo m') :
    Finishes ι N True m (Threads.stop ++ todo) m' := by
  apply Finishes.exec (f := fun m => { m with nonce := m.nonce.pause false })
    fun _ => ⟨rfl, rfl, rfl, rfl⟩
  apply Finishes.push (f := fun m => ({ m with nonce := { m.nonce with sequence := fun _ => 0 } },
    [.stopBackend])) fun _ => ⟨rfl, rfl, rfl, rfl⟩
  exact h.stopBackend

/-- The function of `XLArig.Miner` for a call. -/
def Call.apply (s : Miner) : Call → Miner
  | .setJob job donate wasReady isReady => s.setJob job donate wasReady isReady
  | .onDatasetReady isReady => s.onDatasetReady isReady
  | .onConfigChanged config poolsDiffer => s.onConfigChanged config poolsDiffer
  | .setEnabled enabled => s.setEnabled enabled
  | .pause => s.pause
  | .stop => s.stop

theorem finishes_call (m : Miner) (c : Call) :
    Finishes ι N True (Call.start m c).1 (Call.start m c).2 (Call.apply m c) := by
  cases c with
  | setJob job donate wasReady isReady =>
      have hstore : ∀ m : Miner, Finishes ι N True m [.store job donate isReady]
          (if Miner.initRX { m.store job donate with active := true } isReady then
            Miner.handleJobChange { m.store job donate with active := true }
          else { m.store job donate with active := true }) := by
        intro m
        apply Finishes.push (f := fun m => ({ m.store job donate with active := true },
          if Miner.initRX { m.store job donate with active := true } isReady then handleJobChange
          else [])) fun _ => ⟨rfl, rfl, rfl, rfl⟩
        dsimp only
        rw [List.append_nil]
        split
        · exact finishes_handleJobChange _
        · exact .nil
      simp only [Call.start, Call.apply, Miner.setJob, Miner.prepare]
      split
      · exact (hstore _).stop
      · exact hstore _
  | onDatasetReady isReady =>
      simp only [Call.start, Call.apply, Miner.onDatasetReady]
      split
      · exact finishes_handleJobChange m
      · exact .nil
  | onConfigChanged config poolsDiffer =>
      simp only [Call.start, Call.apply, Miner.onConfigChanged]
      split
      · exact .nil
      · exact Finishes.nil.setBackendJob
  | setEnabled enabled =>
      simp only [Call.start, Call.apply, Miner.setEnabled]
      split
      · exact .nil
      · split
        · exact .nil
        · split
          · exact .nil
          · apply Finishes.exec
              (f := fun m => { m with enabled, nonce := m.nonce.pause !enabled })
              fun _ => ⟨rfl, rfl, rfl, rfl⟩
            exact Finishes.nil.touch
  | pause =>
      apply Finishes.exec (f := fun m => { m with active := false, nonce := m.nonce.pause true })
        fun _ => ⟨rfl, rfl, rfl, rfl⟩
      exact Finishes.nil.touch
  | stop => exact Finishes.nil.stop

/-- **A call alone is the function of the miner**: with no worker to wait for, the
main thread completes it and has made the miner what the function makes it. -/
theorem run_call (hjoin : s.joining = false) (htodo : s.todo = []) (hended : s.Ended) (c : Call) :
    ∃ n s', (machine ι N).run s (.call c :: List.replicate n .main) = some s' ∧
      s'.todo = [] ∧ s'.joining = false ∧ s'.miner = Call.apply s.miner c := by
  obtain ⟨s', ⟨n, hn⟩, hrest⟩ := finishes_call s.miner c { s with
    miner := (Call.start s.miner c).1
    todo := (Call.start s.miner c).2 } hjoin rfl rfl fun _ => hended
  refine ⟨n, s', ?_, hrest⟩
  show (Threads.step s (.call c)).bind _ = some s'
  rw [step_call hjoin htodo]
  exact hn

end XLArig.Threads
