import XLArig.Job
import XLArig.Machine

/-!
# XLArig.JobResults

`net/JobResults`: the results of the worker threads reach the listener on the main thread.

A worker appends to a list under the mutex and sends before it gives the mutex up.  A send adds
one to the counter of an eventfd; while that is not zero the loop calls `on_schedule`, which reads
it until it is empty and then takes the whole list at once.  So one callback may serve many sends,
and a send may come between the last read and the swap, which leaves a callback with nothing to
do.  No result stays behind (`none_lost`).

Each list entry remembers its worker, which the code does not.  `calls` keeps what a worker
has submitted.
-/

namespace XLArig

/-- `JobResult(const Job &)`: the nonces of the job are exhausted. -/
def JobResult.exhausted (job : Job) : JobResult where
  algorithm := job.algorithm
  clientId := job.clientId
  jobId := job.id
  backend := job.backend
  nonce := 0
  diff := 0
  index := job.index
  result := fun _ => 0

namespace JobResults

/-- Where a worker is in `JobResultsPrivate::submit(const JobResult &)`: outside, before the lock,
before `push_back`, before `send`, or before the unlock. -/
inductive WorkerPc
  | idle
  | lock (result : JobResult)
  | append (result : JobResult)
  | send
  | unlock

/-- Where the main thread is: in its loop, in the reads of `on_schedule`, or in
`JobResultsPrivate::submit()` before the lock, the swap, the unlock, or in its loop. -/
inductive MainPc
  | idle
  | read
  | lock
  | swap
  | unlock
  | deliver
  deriving DecidableEq

/-- Who has the mutex. -/
inductive Owner (ι : Type*)
  | worker (w : ι)
  | main

end JobResults

open JobResults in
/-- `JobResultsPrivate`, with its threads.  `swapped` is the local list `results` of `submit()`. -/
structure JobResults (ι : Type*) where
  results : List (ι × JobResult)
  mutex : Option (Owner ι)
  counter : Nat
  worker : ι → WorkerPc
  main : MainPc
  swapped : List (ι × JobResult)
  delivered : List (ι × JobResult)
  calls : ι → List JobResult

namespace JobResults

variable {ι : Type*} [DecidableEq ι]

/-- After `setListener`. -/
def init : JobResults ι where
  results := []
  mutex := none
  counter := 0
  worker := fun _ => .idle
  main := .idle
  swapped := []
  delivered := []
  calls := fun _ => []

/-! ## Workers -/

/-- `JobResults::submit` is called. -/
def submit (s : JobResults ι) (w : ι) (result : JobResult) : Option (JobResults ι) :=
  match s.worker w with
  | .idle => some { s with
      worker := Function.update s.worker w (.lock result)
      calls := Function.update s.calls w (s.calls w ++ [result]) }
  | _ => none

/-- The next step of `submit`; the lock waits. -/
def runWorker (s : JobResults ι) (w : ι) : Option (JobResults ι) :=
  match s.worker w with
  | .idle => none
  | .lock result =>
      match s.mutex with
      | none => some { s with
          worker := Function.update s.worker w (.append result)
          mutex := some (.worker w) }
      | some _ => none
  | .append result => some { s with
      worker := Function.update s.worker w .send
      results := s.results ++ [(w, result)] }
  | .send => some { s with
      worker := Function.update s.worker w .unlock
      counter := s.counter + 1 }
  | .unlock => some { s with
      worker := Function.update s.worker w .idle
      mutex := none }

/-! ## The main thread -/

/-- The next step of the main thread; the loop waits for the counter. -/
def runMain (s : JobResults ι) : Option (JobResults ι) :=
  match s.main with
  | .idle => if s.counter = 0 then none else some { s with main := .read }
  | .read =>
      if s.counter = 0 then some { s with main := .lock } else some { s with counter := 0 }
  | .lock =>
      match s.mutex with
      | none => some { s with
          mutex := some .main
          main := .swap }
      | some _ => none
  | .swap => some { s with
      results := s.swapped
      swapped := s.results
      main := .unlock }
  | .unlock => some { s with
      mutex := none
      main := .deliver }
  | .deliver =>
      match s.swapped with
      | [] => some { s with main := .idle }
      | x :: swapped => some { s with
          swapped
          delivered := s.delivered ++ [x] }

/-! ## The system -/

/-- What happens: a worker calls `submit` or `done`, or a thread takes a step. -/
inductive Event (ι : Type*)
  | submit (w : ι) (result : JobResult)
  | done (w : ι) (job : Job)
  | worker (w : ι)
  | main

def step (s : JobResults ι) : Event ι → Option (JobResults ι)
  | .submit w result => s.submit w result
  | .done w job => s.submit w (.exhausted job)
  | .worker w => s.runWorker w
  | .main => s.runMain

def machine (ι : Type*) [DecidableEq ι] : Machine (JobResults ι) (Event ι) where
  init s := s = init
  step := step

/-! ## What holds between two steps -/

/-- The worker has the lock. -/
def WorkerPc.Holds : WorkerPc → Prop
  | .append _ | .send | .unlock => True
  | .idle | .lock _ => False

/-- The main thread has the lock. -/
def MainPc.Holds : MainPc → Prop
  | .swap | .unlock => True
  | .idle | .read | .lock | .deliver => False

/-- The main thread is going to swap the list. -/
def MainPc.Swaps : MainPc → Prop
  | .read | .lock | .swap => True
  | .idle | .unlock | .deliver => False

/-- The result that a worker has not appended yet. -/
def WorkerPc.pending : WorkerPc → List JobResult
  | .lock result | .append result => [result]
  | .idle | .send | .unlock => []

/-- The results of a worker in a list. -/
def ofWorker (w : ι) (xs : List (ι × JobResult)) : List JobResult :=
  (xs.filter (·.1 = w)).map Prod.snd

@[simp] theorem ofWorker_nil (w : ι) : ofWorker w [] = [] := rfl

@[simp] theorem ofWorker_append (w : ι) (xs ys : List (ι × JobResult)) :
    ofWorker w (xs ++ ys) = ofWorker w xs ++ ofWorker w ys := by simp [ofWorker]

@[simp] theorem ofWorker_self (w : ι) (result : JobResult) :
    ofWorker w [(w, result)] = [result] := by
  simp [ofWorker]

theorem ofWorker_of_ne {w k : ι} (h : w ≠ k) (result : JobResult) :
    ofWorker k [(w, result)] = [] := by
  simp [ofWorker, h]

/-- Everything that was submitted stands where it belongs, and something is under way for what
stands in the list. -/
structure Inv (s : JobResults ι) : Prop where
  worker : ∀ w, (s.worker w).Holds ↔ s.mutex = some (.worker w)
  main : s.main.Holds ↔ s.mutex = some .main
  swapped : s.main ≠ .unlock → s.main ≠ .deliver → s.swapped = []
  order : ∀ w,
    ofWorker w (s.delivered ++ s.swapped ++ s.results) ++ (s.worker w).pending = s.calls w
  wake : s.results ≠ [] → s.counter ≠ 0 ∨ (∃ w, s.worker w = .send) ∨ s.main.Swaps

variable {s s' : JobResults ι} {w : ι} {result : JobResult}

theorem inv_init : (init : JobResults ι).Inv where
  worker _ := by simp [init, WorkerPc.Holds]
  main := by simp [init, MainPc.Holds]
  swapped _ _ := rfl
  order _ := rfl
  wake h := absurd rfl h

/-! ### Workers -/

/-- A worker moves on: it takes or gives up the mutex at most for itself, what it had pending is
still there, and so is what is under way. -/
theorem Inv.move (h : s.Inv) {pc : WorkerPc} {mutex : Option (Owner ι)}
    {results : List (ι × JobResult)} {counter : Nat} {calls : ι → List JobResult}
    (hself : pc.Holds ↔ mutex = some (.worker w))
    (hother : ∀ owner, owner ≠ .worker w → (mutex = some owner ↔ s.mutex = some owner))
    (horder : ∀ k, ∃ more,
      ofWorker k results ++ (Function.update s.worker w pc k).pending =
        ofWorker k s.results ++ (s.worker k).pending ++ more ∧ calls k = s.calls k ++ more)
    (hwake : results ≠ [] →
      counter ≠ 0 ∨ (∃ k, Function.update s.worker w pc k = .send) ∨ s.main.Swaps) :
    Inv { s with
      worker := Function.update s.worker w pc
      mutex
      results
      counter
      calls } where
  worker k := by
    show (Function.update s.worker w pc k).Holds ↔ mutex = some (.worker k)
    by_cases hk : k = w
    · subst hk
      rw [Function.update_self]
      exact hself
    · rw [Function.update_of_ne hk, h.worker k]
      exact (hother _ fun heq => hk (Owner.worker.inj heq)).symm
  main := h.main.trans (hother .main nofun).symm
  swapped := h.swapped
  order k := by
    obtain ⟨more, hmore, hcalls⟩ := horder k
    show ofWorker k (s.delivered ++ s.swapped ++ results) ++ _ = calls k
    rw [ofWorker_append, List.append_assoc]
    refine (congrArg _ hmore).trans ?_
    rw [hcalls, ← h.order k, ofWorker_append _ _ s.results]
    simp only [List.append_assoc]
  wake := hwake

/-- What is under way stays so when a worker that is not about to send moves on. -/
theorem Inv.wake_update (h : s.Inv) (hpc : s.worker w ≠ .send) (pc : WorkerPc)
    (hne : s.results ≠ []) :
    s.counter ≠ 0 ∨ (∃ k, Function.update s.worker w pc k = .send) ∨ s.main.Swaps := by
  rcases h.wake hne with hcounter | ⟨k, hk⟩ | hswaps
  · exact .inl hcounter
  · refine .inr (.inl ⟨k, ?_⟩)
    rw [Function.update_of_ne]
    · exact hk
    · rintro rfl
      exact hpc hk
  · exact .inr (.inr hswaps)

/-- A worker that neither appends nor submits has as much pending as before. -/
theorem Inv.order_update {pc : WorkerPc} (hpending : pc.pending = (s.worker w).pending) (k : ι) :
    ∃ more, ofWorker k s.results ++ (Function.update s.worker w pc k).pending =
      ofWorker k s.results ++ (s.worker k).pending ++ more ∧ s.calls k = s.calls k ++ more := by
  refine ⟨[], ?_, by simp⟩
  by_cases hk : k = w
  · subst hk
    simp [hpending]
  · simp [hk]

theorem inv_submit (h : s.Inv) (hstep : s.submit w result = some s') : s'.Inv := by
  unfold submit at hstep
  split at hstep
  case h_2 => contradiction
  case h_1 hidle =>
    obtain rfl := Option.some.inj hstep
    have hfree : s.mutex ≠ some (.worker w) := by
      intro hmutex
      have hholds := (h.worker w).mpr hmutex
      rw [hidle] at hholds
      exact hholds
    refine h.move ?_ (fun _ _ => Iff.rfl) ?_ ?_
    · exact ⟨False.elim, hfree⟩
    · intro k
      by_cases hk : k = w
      · subst hk
        exact ⟨[result], by simp [hidle, WorkerPc.pending], by simp⟩
      · exact ⟨[], by simp [hk], by simp [hk]⟩
    · exact h.wake_update (by rw [hidle]; nofun) _

theorem inv_runWorker (h : s.Inv) (hstep : s.runWorker w = some s') : s'.Inv := by
  unfold runWorker at hstep
  cases hpc : s.worker w with
  | idle =>
      rw [hpc] at hstep
      contradiction
  | lock result =>
      cases hmutex : s.mutex with
      | some owner =>
          simp only [hpc, hmutex] at hstep
          contradiction
      | none =>
          simp only [hpc, hmutex, Option.some.injEq] at hstep
          subst hstep
          refine h.move ?_ ?_ (Inv.order_update (by rw [hpc]; rfl)) ?_
          · exact ⟨fun _ => rfl, fun _ => trivial⟩
          · intro owner howner
            simp [hmutex, Ne.symm howner]
          · exact h.wake_update (by rw [hpc]; nofun) _
  | append result =>
      simp only [hpc, Option.some.injEq] at hstep
      subst hstep
      have hmutex : s.mutex = some (.worker w) := (h.worker w).mp (by rw [hpc]; trivial)
      refine h.move ?_ (fun _ _ => Iff.rfl) ?_ ?_
      · exact ⟨fun _ => hmutex, fun _ => trivial⟩
      · intro k
        refine ⟨[], ?_, by simp⟩
        by_cases hk : k = w
        · subst hk
          simp [hpc, WorkerPc.pending]
        · simp [hk, ofWorker_of_ne (Ne.symm hk)]
      · exact fun _ => .inr (.inl ⟨w, Function.update_self ..⟩)
  | send =>
      simp only [hpc, Option.some.injEq] at hstep
      subst hstep
      have hmutex : s.mutex = some (.worker w) := (h.worker w).mp (by rw [hpc]; trivial)
      refine h.move ?_ (fun _ _ => Iff.rfl) (Inv.order_update (by rw [hpc]; rfl)) ?_
      · exact ⟨fun _ => hmutex, fun _ => trivial⟩
      · exact fun _ => .inl (Nat.succ_ne_zero _)
  | unlock =>
      simp only [hpc, Option.some.injEq] at hstep
      subst hstep
      have hmutex : s.mutex = some (.worker w) := (h.worker w).mp (by rw [hpc]; trivial)
      refine h.move ?_ ?_ (Inv.order_update (by rw [hpc]; rfl)) ?_
      · exact ⟨False.elim, nofun⟩
      · intro owner howner
        simp [hmutex, Ne.symm howner]
      · exact h.wake_update (by rw [hpc]; nofun) _

/-! ### The main thread -/

theorem inv_runMain (h : s.Inv) (hstep : s.runMain = some s') : s'.Inv := by
  unfold runMain at hstep
  cases hpc : s.main with
  | idle =>
      simp only [hpc, Option.ite_none_left_eq_some, Option.some.injEq] at hstep
      obtain ⟨-, rfl⟩ := hstep
      have hmain := h.main
      rw [hpc] at hmain
      exact ⟨h.worker, hmain, fun _ _ => h.swapped (by simp [hpc]) (by simp [hpc]), h.order,
        fun _ => .inr (.inr trivial)⟩
  | read =>
      have hmain := h.main
      rw [hpc] at hmain
      have hswapped : s.swapped = [] := h.swapped (by simp [hpc]) (by simp [hpc])
      simp only [hpc] at hstep
      split at hstep
      · obtain rfl := Option.some.inj hstep
        exact ⟨h.worker, hmain, fun _ _ => hswapped, h.order, fun _ => .inr (.inr trivial)⟩
      · obtain rfl := Option.some.inj hstep
        exact ⟨h.worker, hmain, fun _ _ => hswapped, h.order, fun _ => .inr (.inr trivial)⟩
  | lock =>
      cases hmutex : s.mutex with
      | some owner =>
          simp only [hpc, hmutex] at hstep
          contradiction
      | none =>
          simp only [hpc, hmutex, Option.some.injEq] at hstep
          subst hstep
          have hswapped : s.swapped = [] := h.swapped (by simp [hpc]) (by simp [hpc])
          refine ⟨fun w => ?_, ⟨fun _ => rfl, fun _ => trivial⟩, fun _ _ => hswapped, h.order,
            fun _ => .inr (.inr trivial)⟩
          rw [h.worker w, hmutex]
          simp
  | swap =>
      simp only [hpc, Option.some.injEq] at hstep
      subst hstep
      have hswapped : s.swapped = [] := h.swapped (by simp [hpc]) (by simp [hpc])
      have hmutex : s.mutex = some .main := h.main.mp (by rw [hpc]; trivial)
      refine ⟨h.worker, ⟨fun _ => hmutex, fun _ => trivial⟩, nofun, fun w => ?_, fun hne => ?_⟩
      · have horder := h.order w
        rw [hswapped] at horder
        simpa [hswapped] using horder
      · exact absurd hswapped hne
  | unlock =>
      simp only [hpc, Option.some.injEq] at hstep
      subst hstep
      have hmutex : s.mutex = some .main := h.main.mp (by rw [hpc]; trivial)
      refine ⟨fun w => ?_, ⟨False.elim, nofun⟩, fun _ hne => absurd rfl hne, h.order, fun hne => ?_⟩
      · rw [h.worker w, hmutex]
        simp
      · rcases h.wake hne with hcounter | hsend | hswaps
        · exact .inl hcounter
        · exact .inr (.inl hsend)
        · rw [hpc] at hswaps
          contradiction
  | deliver =>
      have hmain := h.main
      rw [hpc] at hmain
      have hwake : s.results ≠ [] → s.counter ≠ 0 ∨ ∃ w, s.worker w = .send := by
        intro hne
        rcases h.wake hne with hcounter | hsend | hswaps
        · exact .inl hcounter
        · exact .inr hsend
        · rw [hpc] at hswaps
          contradiction
      cases hswapped : s.swapped with
      | nil =>
          simp only [hpc, hswapped, Option.some.injEq] at hstep
          subst hstep
          have horder := h.order
          rw [hswapped] at horder
          exact ⟨h.worker, hmain, fun _ _ => rfl, horder, fun hne => (hwake hne).imp_right .inl⟩
      | cons x swapped =>
          simp only [hpc, hswapped, Option.some.injEq] at hstep
          subst hstep
          refine ⟨h.worker, hmain, fun _ hne => absurd rfl hne, fun w => ?_,
            fun hne => (hwake hne).imp_right .inl⟩
          have horder := h.order w
          rw [hswapped] at horder
          simpa using horder

/-! ### Runs -/

theorem inv_step {e : Event ι} (h : s.Inv) (hstep : s.step e = some s') : s'.Inv := by
  cases e with
  | submit w result => exact inv_submit h hstep
  | done w job => exact inv_submit h hstep
  | worker w => exact inv_runWorker h hstep
  | main => exact inv_runMain h hstep

theorem inv_of_reachable (h : (machine ι).Reachable s) : s.Inv := by
  refine Machine.ReachableIf.invariant h ?_ ?_
  · rintro s rfl
    exact inv_init
  · exact fun s e s' hs _ hstep => inv_step hs hstep

/-- No worker is in `submit`. -/
def Quiet (s : JobResults ι) : Prop := ∀ w, s.worker w = .idle

/-- **No result is lost or delivered twice.**  What the listener has got from a worker is the
beginning of what the worker has submitted.  While a result is in the list, no submit has the
mutex and no callback runs, the counter is not zero; and when it is, and no submit is under way,
everything has been delivered. -/
theorem none_lost (h : (machine ι).Reachable s) :
    (∀ w, ofWorker w s.delivered <+: s.calls w) ∧
      (s.results ≠ [] → (∀ w, s.mutex ≠ some (.worker w)) → s.main = .idle → s.counter ≠ 0) ∧
      (s.main = .idle → s.counter = 0 → s.Quiet → ∀ w, ofWorker w s.delivered = s.calls w) := by
  have hinv := inv_of_reachable h
  have hcounter : s.results ≠ [] → (∀ w, s.mutex ≠ some (.worker w)) → s.main = .idle →
      s.counter ≠ 0 := by
    intro hne hfree hidle
    rcases hinv.wake hne with hcounter | ⟨w, hw⟩ | hswaps
    · exact hcounter
    · exact absurd ((hinv.worker w).mp (by rw [hw]; trivial)) (hfree w)
    · rw [hidle] at hswaps
      contradiction
  refine ⟨fun w => ?_, hcounter, fun hidle hzero hquiet w => ?_⟩
  · rw [← hinv.order w]
    simp only [ofWorker_append, List.append_assoc]
    exact List.prefix_append _ _
  · have hfree : ∀ w, s.mutex ≠ some (.worker w) := by
      intro w hmutex
      have hholds := (hinv.worker w).mpr hmutex
      rw [hquiet w] at hholds
      exact hholds
    have hnil : s.results = [] := by
      by_contra hne
      exact hcounter hne hfree hidle hzero
    have hswapped : s.swapped = [] := hinv.swapped (by simp [hidle]) (by simp [hidle])
    have horder := hinv.order w
    rw [hswapped, hnil, hquiet w] at horder
    simpa [WorkerPc.pending] using horder

end JobResults

end XLArig

namespace XLArig.JobResults

/-- One worker has submitted a result, and the main thread has not noticed yet. -/
theorem none_lost_waiting : ∃ s : JobResults Unit, s.results ≠ [] ∧ s.main = .idle ∧
    s.counter ≠ 0 ∧ ofWorker () s.delivered <+: s.calls () := by
  have hrun : ((machine Unit).run init [.done () .empty, .worker (), .worker (), .worker (),
      .worker ()]).any (fun s => decide (s.results.length = 1 ∧ s.main = .idle ∧
        s.mutex.isNone = true)) = true := by
    decide
  obtain ⟨s, hs, hp⟩ := Machine.Reachable.exists_of_run rfl hrun
  obtain ⟨hlength, hidle, hmutex⟩ := of_decide_eq_true hp
  have hne : s.results ≠ [] := by
    intro hnil
    rw [hnil] at hlength
    contradiction
  have hfree : ∀ w, s.mutex ≠ some (.worker w) := by
    intro w hw
    rw [hw] at hmutex
    contradiction
  exact ⟨s, hne, hidle, (none_lost hs).2.1 hne hfree hidle, (none_lost hs).1 ()⟩

end XLArig.JobResults
