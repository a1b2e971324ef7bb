import XLArig.RxQueue
import XLArig.Threads

/-!
# XLArig.Threads.Dataset

The threads of the miner and of the CPU backend together with `RxQueue`: what the workers are
told about the dataset, and which of them have a virtual machine that is bound to it.

The answers that `XLArig.Threads` takes from outside are given by the queue here: whether the
dataset of a job is ready when the job is set, and once more when it is stored; and whether a
worker that waits for a dataset gets one.
-/

namespace XLArig

section

variable [RandomX] [Features]

/-- `Rx::init`, and whether the dataset is ready. -/
def RxQueue.rxInit (q : RxQueue) (seed : RxSeed) (mode : RxMode) : RxQueue × Bool :=
  if seed.algorithm.family ≠ .RANDOM_X then (q, true)
  else if q.isReady seed then (q, true)
  else (q.enqueue ⟨seed, mode⟩, false)

variable [Hasher]

/-- The threads, the queue, and which of the workers have an `m_vm`. -/
structure RxThreads (ι : Type*) (N : ι → Nat) where
  threads : Threads ι N
  queue : RxQueue
  vm : ι → Bool

namespace RxThreads

variable {ι : Type*} {N : ι → Nat}

/-! ## The main thread -/

/-- A call, with what the queue says when it begins. -/
def answered (s : RxThreads ι N) : Call → Call
  | .setJob job donate _ isReady =>
      .setJob job donate (s.queue.isReady (.ofJob job)) isReady
  | .onDatasetReady _ => .onDatasetReady (s.queue.isReady (.ofJob s.threads.miner.job))
  | c => c

/-- The next action of the main thread.  `absent` says which workers a launch has no thread
for, `mode` is that of the configuration. -/
def exec (s : RxThreads ι N) (absent : ι → Bool) (mode : RxMode) (todo : List Action) :
    Action → RxThreads ι N
  | .store job donate _ =>
      let x := s.queue.rxInit (.ofJob job) mode
      { s with
        threads := { s.threads with todo }.exec (.store job donate x.2)
        queue := x.1 }
  | .launch data =>
      let threads := { s.threads with todo }.exec (.launch data)
      { s with
        threads := { threads with
          worker := fun w =>
            if absent w then (threads.worker w).goto .done else threads.worker w }
        vm := fun _ => false }
  | a => { s with threads := { s.threads with todo }.exec a }

/-- The workers that have ended are deleted, and their machines with them. -/
def mainStep [Fintype ι] (s : RxThreads ι N) (absent : ι → Bool) (mode : RxMode) :
    Option (RxThreads ι N) :=
  if s.threads.joining then
    if s.threads.Ended then some { s with
      threads := s.threads.join
      vm := fun _ => false }
    else none
  else
    match s.threads.todo with
    | [] => none
    | a :: todo => some (s.exec absent mode todo a)

/-- The async handle of the queue; the listener is the miner. -/
def onReady [Fintype ι] [DecidableEq ι] (s : RxThreads ι N) : Option (RxThreads ι N) :=
  if s.threads.joining = false ∧ s.threads.todo = [] ∧ s.queue.sent = true then
    let s' := { s with queue := s.queue.onReady.1 }
    if s.queue.onReady.2 then
      (s'.threads.step (.call (s'.answered (.onDatasetReady true)))).map ({ s' with threads := · })
    else some s'
  else none

/-! ## The workers -/

/-- What a worker is told: in `allocateRandomX_VM` whether there is a dataset, in the hashing
loop whether an AstroBWT hash is valid. -/
def answer (s : RxThreads ι N) (w : ι) (valid : Bool) : Bool :=
  match (s.threads.worker w).pc with
  | .allocate _ => (s.queue.dataset (s.threads.worker w).job.currentJob).isSome
  | _ => valid

/-- `RxVm::create`, if the worker has no machine yet. -/
def bind [DecidableEq ι] (s : RxThreads ι N) (w : ι) : ι → Bool :=
  match (s.threads.worker w).pc with
  | .allocate _ =>
      let job := (s.threads.worker w).job.currentJob
      if job.algorithm.family = .RANDOM_X ∧ (s.queue.dataset job).isSome then
        Function.update s.vm w true
      else s.vm
  | _ => s.vm

def workerStep [DecidableEq ι] (s : RxThreads ι N) (w : ι) (valid : Bool) :
    Option (RxThreads ι N) :=
  (s.threads.workerStep w (s.answer w valid)).map fun threads => { s with
    threads
    vm := s.bind w }

/-! ## The system -/

/-- What happens, on any of the threads. -/
inductive Event (ι : Type*)
  | call (c : Call)
  | main (absent : ι → Bool) (mode : RxMode)
  | onReady
  | worker (w : ι) (valid : Bool)
  | background (a : Allocation)

def step [Fintype ι] [DecidableEq ι] (s : RxThreads ι N) : Event ι → Option (RxThreads ι N)
  | .call c => (s.threads.step (.call (s.answered c))).map ({ s with threads := · })
  | .main absent mode => s.mainStep absent mode
  | .onReady => s.onReady
  | .worker w valid => s.workerStep w valid
  | .background a => (s.queue.background a).map ({ s with queue := · })

def init (config : Config) : RxThreads ι N where
  threads := .init config
  queue := .new
  vm := fun _ => false

def machine (ι : Type*) [Fintype ι] [DecidableEq ι] (N : ι → Nat) :
    Machine (RxThreads ι N) (Event ι) where
  init s := ∃ config, s = init config
  step := step

/-- The worker is in a RandomX hash, on a machine that is bound to the dataset. -/
def Hashes (s : RxThreads ι N) (w : ι) : Prop :=
  (s.threads.worker w).pc = .body ∧
    (s.threads.worker w).job.currentJob.algorithm.family = .RANDOM_X ∧ s.vm w = true

/-! ## What holds between two steps -/

/-- An action that stores no job; a launch has threads to start. -/
def Plain : Action → Prop
  | .store .. => False
  | .launch data => data ≠ []
  | _ => True

/-- What the main thread has before it.  A RandomX job is stored only if its dataset is
ready, or when the workers have been stopped, or will be before. -/
inductive Plan (ready : Job → Prop) (stopped : Prop) : List Action → Prop
  | rest {todo : List Action} (h : ∀ a ∈ todo, Plain a) : Plan ready stopped todo
  | store {job : Job} {donate isReady : Bool}
      (h : job.algorithm.family = .RANDOM_X → ready job ∨ stopped) :
      Plan ready stopped [.store job donate isReady]
  | stopBackend {job : Job} {donate isReady : Bool} :
      Plan ready stopped [.stopBackend, .store job donate isReady]
  | stopSequences {job : Job} {donate isReady : Bool} :
      Plan ready stopped [.stopSequences, .store job donate isReady]
  | clearPause {job : Job} {donate isReady : Bool} :
      Plan ready stopped [.clearPause, .stopSequences, .store job donate isReady]

/-- The workers are being stopped, or there are none. -/
def Stopped (t : Threads ι N) : Prop := t.joining = true ∨ t.miner.backend.threads = []

structure Inv (s : RxThreads ι N) : Prop where
  queue : s.queue.Inv
  unbound : s.queue.state ≠ .IDLE → ∀ w, s.vm w = false
  ended : s.threads.miner.backend.threads = [] →
    ∀ w, (s.threads.worker w).pc = .done ∧ s.vm w = false
  plan : Plan (fun job => s.queue.isReady (.ofJob job) = true) (Stopped s.threads) s.threads.todo

variable {s s' : RxThreads ι N} {t : Threads ι N} {a : Action} {todo : List Action}
variable {ready ready' : Job → Prop} {stopped stopped' : Prop}

omit [RandomX] [Hasher] in
theorem Plan.mono (h : Plan ready stopped todo) (hready : ∀ job, ready job → ready' job)
    (hstopped : stopped → stopped') : Plan ready' stopped' todo := by
  cases h with
  | rest h => exact .rest h
  | store h => exact .store fun hrandomx => (h hrandomx).imp (hready _) hstopped
  | stopBackend => exact .stopBackend
  | stopSequences => exact .stopSequences
  | clearPause => exact .clearPause

theorem inv_init (config : Config) : (init config : RxThreads ι N).Inv where
  queue := RxQueue.inv_new
  unbound _ _ := rfl
  ended _ _ := ⟨rfl, rfl⟩
  plan := .rest fun _ ha => absurd ha List.not_mem_nil

/-! ### The actions -/

omit [RandomX] [Features] [Hasher] in
theorem plain_handleJobChange : ∀ a ∈ Threads.handleJobChange, Plain a := by
  simp [Threads.handleJobChange, Plain]

omit [RandomX] [Hasher] in
theorem plain_setBackendJob (m : Miner) : ∀ a ∈ (Threads.setBackendJob m).2, Plain a := by
  unfold Threads.setBackendJob
  dsimp only
  split_ifs with hoff hup hnone
  · simp [Plain]
  · simp
  · simp [Plain]
  · have hthreads : m.config.cpu.get m.job.algorithm ≠ [] := by
      intro hnil
      simp [hnil] at hnone
    simpa [Plain] using hthreads

omit [RandomX] in
/-- The actions between which no thread comes or goes. -/
theorem exec_frame (t : Threads ι N) (hplain : Plain a) (hlaunch : ∀ data, a ≠ .launch data) :
    (t.exec a).miner.backend.threads = t.miner.backend.threads ∧
      (t.exec a).worker = t.worker ∧
      ∃ todo, (t.exec a).todo = todo ++ t.todo ∧ ∀ a ∈ todo, Plain a := by
  cases a with
  | store => exact absurd hplain id
  | launch data => exact absurd rfl (hlaunch data)
  | setBackendJob =>
      refine ⟨?_, rfl, _, rfl, plain_setBackendJob _⟩
      simp only [Threads.exec, Threads.setBackendJob]
      split_ifs <;> rfl
  | stopSequences => exact ⟨rfl, rfl, [.stopBackend], rfl, by simp [Plain]⟩
  | stopBackend =>
      simp only [Threads.exec]
      split_ifs <;> exact ⟨rfl, rfl, [], rfl, by simp⟩
  | pauseIfDisabled =>
      refine ⟨?_, rfl, [], rfl, by simp⟩
      simp only [Threads.exec, Miner.pauseIfDisabled]
      split <;> rfl
  | resetCounter =>
      refine ⟨?_, rfl, [], rfl, by simp⟩
      simp only [Threads.exec, Miner.resetCounter]
      split <;> rfl
  | unpause =>
      refine ⟨?_, rfl, [], rfl, by simp⟩
      simp only [Threads.exec, Miner.unpause]
      split <;> rfl
  | startTimer =>
      refine ⟨?_, rfl, [], rfl, by simp⟩
      simp only [Threads.exec, Miner.startTimer]
      split_ifs <;> rfl
  | _ => exact ⟨rfl, rfl, [], rfl, by simp⟩

/-- The rest of a call goes on. -/
theorem inv_frame {t : Threads ι N} (h : s.Inv)
    (hthreads : t.miner.backend.threads = s.threads.miner.backend.threads)
    (hworker : t.worker = s.threads.worker)
    (hplan : Plan (fun job => s.queue.isReady (.ofJob job) = true) (Stopped t) t.todo) :
    Inv { s with threads := t } where
  queue := h.queue
  unbound := h.unbound
  ended hnil := by
    rw [hthreads] at hnil
    rw [hworker]
    exact h.ended hnil
  plan := hplan

/-- A job is stored: if its dataset has to be made, no thread is left that could use the one
that is there. -/
theorem inv_store {job : Job} {donate isReady : Bool} {absent : ι → Bool} {mode : RxMode}
    (h : s.Inv) (hjoin : s.threads.joining = false)
    (htodo : s.threads.todo = [.store job donate isReady]) :
    (s.exec absent mode [] (.store job donate isReady)).Inv := by
  have hstore : job.algorithm.family = .RANDOM_X →
      s.queue.isReady (.ofJob job) = true ∨ Stopped s.threads := by
    have hplan := h.plan
    rw [htodo] at hplan
    cases hplan with
    | rest hplain => exact absurd (hplain _ (List.mem_singleton_self _)) id
    | store hstore => exact hstore
  have hplan : ∀ ready stopped, Plan ready stopped (Threads.exec { s.threads with todo := [] }
      (.store job donate (s.queue.rxInit (.ofJob job) mode).2)).todo := by
    intro ready stopped
    refine .rest ?_
    simp only [Threads.exec, List.append_nil]
    split
    · exact plain_handleJobChange
    · simp
  have hsame : s.queue.rxInit (.ofJob job) mode = (s.queue, true) ∨
      Stopped s.threads ∧ s.queue.rxInit (.ofJob job) mode =
        (s.queue.enqueue ⟨.ofJob job, mode⟩, false) := by
    unfold RxQueue.rxInit
    split
    · exact .inl rfl
    · next hfamily =>
      obtain hready | hstopped := hstore (not_not.mp hfamily)
      · rw [if_pos hready]
        exact .inl rfl
      · split
        · exact .inl rfl
        · exact .inr ⟨hstopped, rfl⟩
  obtain hqueue | ⟨hstopped, hqueue⟩ := hsame
  · constructor
    · simpa [exec, hqueue] using h.queue
    · simpa [exec, hqueue] using h.unbound
    · exact h.ended
    · exact hplan _ _
  · have hnil : s.threads.miner.backend.threads = [] :=
      hstopped.resolve_left (by simp [hjoin])
    constructor
    · simpa [exec, hqueue] using RxQueue.inv_enqueue h.queue
    · intro _ w
      exact (h.ended hnil w).2
    · exact h.ended
    · exact hplan _ _

theorem inv_launch {data : List CpuLaunchData} {absent : ι → Bool} {mode : RxMode} (h : s.Inv)
    (hdata : data ≠ []) (htodo : ∀ a ∈ todo, Plain a) :
    (s.exec absent mode todo (.launch data)).Inv where
  queue := h.queue
  unbound _ _ := rfl
  ended hnil := absurd hnil hdata
  plan := .rest htodo

theorem inv_exec {absent : ι → Bool} {mode : RxMode} (h : s.Inv)
    (hjoin : s.threads.joining = false) (htodo : s.threads.todo = a :: todo) :
    (s.exec absent mode todo a).Inv := by
  have hplan := h.plan
  rw [htodo] at hplan
  -- the actions that leave the threads alone, one before the next of a plan
  have hframe : ∀ (hplain : Plain a) (hlaunch : ∀ data, a ≠ .launch data),
      s.exec absent mode todo a = { s with threads := { s.threads with todo }.exec a } →
      Plan (fun job => s.queue.isReady (.ofJob job) = true)
        (Stopped ({ s.threads with todo }.exec a)) ({ s.threads with todo }.exec a).todo →
      (s.exec absent mode todo a).Inv := by
    intro hplain hlaunch hexec hplan
    obtain ⟨hthreads, hworker, -⟩ := exec_frame { s.threads with todo } hplain hlaunch
    rw [hexec]
    exact inv_frame h hthreads hworker hplan
  cases hplan with
  | rest hplain =>
      have ha : Plain a := hplain a List.mem_cons_self
      have hrest : ∀ a ∈ todo, Plain a := fun a ha => hplain a (List.mem_cons_of_mem _ ha)
      by_cases hlaunch : ∀ data, a ≠ .launch data
      · obtain ⟨-, -, more, hmore, hplainMore⟩ := exec_frame { s.threads with todo } ha hlaunch
        refine hframe ha hlaunch ?_ (.rest ?_)
        · cases a with
          | store => exact absurd ha id
          | launch data => exact absurd rfl (hlaunch data)
          | _ => rfl
        · rw [hmore]
          intro a ha
          exact (List.mem_append.mp ha).elim (hplainMore a) (hrest a)
      · obtain ⟨data, hdata⟩ := not_forall_not.mp hlaunch
        subst hdata
        exact inv_launch h ha hrest
  | store => exact inv_store h hjoin htodo
  | stopBackend =>
      refine hframe trivial nofun rfl ?_
      simp only [Threads.exec]
      split
      · next hnil => exact .store fun _ => .inr (.inr hnil)
      · exact .store fun _ => .inr (.inl rfl)
  | stopSequences => exact hframe trivial nofun rfl .stopBackend
  | clearPause => exact hframe trivial nofun rfl .stopSequences

theorem inv_main [Fintype ι] {absent : ι → Bool} {mode : RxMode} (h : s.Inv)
    (hs : s.mainStep absent mode = some s') : s'.Inv := by
  unfold mainStep at hs
  cases hjoin : s.threads.joining with
  | true =>
      simp only [hjoin, if_true, Option.ite_none_right_eq_some, Option.some.injEq] at hs
      obtain ⟨hended, rfl⟩ := hs
      exact ⟨h.queue, fun _ _ => rfl, fun _ w => ⟨hended w, rfl⟩,
        h.plan.mono (fun _ => id) fun _ => .inr rfl⟩
  | false =>
      simp only [hjoin, Bool.false_eq_true, if_false] at hs
      cases htodo : s.threads.todo with
      | nil =>
          rw [htodo] at hs
          contradiction
      | cons a todo =>
          rw [htodo] at hs
          obtain rfl := Option.some.inj hs
          exact inv_exec h hjoin htodo

/-! ### The calls -/

omit [RandomX] [Hasher] in
theorem plan_start (m : Miner) (c : Call)
    (h : ∀ job donate wasReady isReady, c = .setJob job donate wasReady isReady →
      wasReady = true → ready job) : Plan ready stopped (Threads.Call.start m c).2 := by
  cases c with
  | setJob job donate wasReady isReady =>
      simp only [Threads.Call.start]
      split
      · exact .clearPause
      · next hnot =>
        refine .store fun hrandomx => .inl (h _ _ _ _ rfl ?_)
        simpa [hrandomx] using hnot
  | onDatasetReady isReady =>
      refine .rest ?_
      simp only [Threads.Call.start]
      split
      · exact plain_handleJobChange
      · simp
  | onConfigChanged config poolsDiffer =>
      refine .rest ?_
      simp only [Threads.Call.start]
      split
      · simp
      · simp [Plain]
  | setEnabled enabled =>
      refine .rest ?_
      simp only [Threads.Call.start]
      split_ifs <;> simp [Plain]
  | pause => exact .rest (by simp [Threads.Call.start, Plain])
  | stop => exact .rest (by simp [Threads.Call.start, Threads.stop, Plain])

omit [RandomX] [Hasher] in
theorem start_threads (m : Miner) (c : Call) :
    (Threads.Call.start m c).1.backend.threads = m.backend.threads := by
  cases c with
  | setEnabled enabled =>
      simp only [Threads.Call.start]
      split_ifs <;> rfl
  | _ => rfl

theorem inv_call [Fintype ι] [DecidableEq ι] {c : Call} {t : Threads ι N} (h : s.Inv)
    (ht : s.threads.step (.call (s.answered c)) = some t) : Inv { s with threads := t } := by
  simp only [Threads.step, Option.ite_none_right_eq_some, Option.some.injEq] at ht
  obtain ⟨-, rfl⟩ := ht
  refine inv_frame h (start_threads _ _) rfl (plan_start _ _ ?_)
  intro job donate wasReady isReady hc hready
  cases c <;> simp only [answered, Call.setJob.injEq, reduceCtorEq] at hc
  obtain ⟨rfl, -, rfl, -⟩ := hc
  exact hready

/-! ### The other threads -/

/-- A machine is made only when the dataset is ready. -/
theorem idle_of_bind [DecidableEq ι] {w w' : ι} (h : s.bind w w' = true) :
    s.vm w' = true ∨ (s.threads.worker w).pc ≠ .done ∧ s.queue.state = .IDLE := by
  cases hpc : (s.threads.worker w).pc with
  | allocate asleep =>
      simp only [bind, hpc] at h
      split at h
      · next hdataset =>
        right
        obtain ⟨-, hsome⟩ := hdataset
        have hready := RxQueue.isReady_of_dataset (Option.isSome_iff_ne_none.mp hsome)
        simp only [RxQueue.isReady, Bool.and_eq_true, decide_eq_true_eq] at hready
        exact ⟨by simp, hready.1.2⟩
      · exact .inl h
  | _ =>
      simp only [bind, hpc] at h
      exact .inl h

theorem inv_worker [DecidableEq ι] {w : ι} {valid : Bool} (h : s.Inv)
    (hs : s.workerStep w valid = some s') : s'.Inv := by
  simp only [workerStep, Option.map_eq_some_iff] at hs
  obtain ⟨t, ht, rfl⟩ := hs
  obtain ⟨x, hx, rfl⟩ := Threads.workerStep_eq ht
  have hmoves : (s.threads.worker w).pc ≠ .done := by
    intro hdone
    rw [CpuWorker.step, hdone] at hx
    contradiction
  have hthreads : s.threads.miner.backend.threads ≠ [] :=
    fun hnil => hmoves (h.ended hnil w).1
  constructor
  · exact h.queue
  · intro hbusy w'
    by_contra hbound
    obtain hvm | ⟨-, hidle⟩ := idle_of_bind (Bool.not_eq_false _ |>.mp hbound)
    · rw [h.unbound hbusy w'] at hvm
      contradiction
    · exact hbusy hidle
  · intro hnil
    exact absurd hnil hthreads
  · exact h.plan

omit [Features] [Hasher] in
/-- What is ready stays so while the main thread does something else. -/
theorem isReady_background {q q' : RxQueue} {a : Allocation} {seed : RxSeed} (hq : q.Inv)
    (h : q.background a = some q') (hready : q.isReady seed = true) : q'.isReady seed = true := by
  obtain ⟨hitem, -, -⟩ := RxQueue.of_isReady hq hready
  have hidle : q.state = .IDLE := by
    simp only [RxQueue.isReady, Bool.and_eq_true, decide_eq_true_eq] at hready
    exact hready.1.2
  unfold RxQueue.background at h
  cases hpc : q.pc with
  | loop =>
      simp only [hpc, Option.some.injEq] at h
      subst h
      exact hready
  | lock => simp [hpc, hidle] at h
  | done => simp [hpc] at h
  | setSeed | createDataset | initDataset | report =>
      rw [hpc] at hitem
      contradiction

omit [Features] [Hasher] in
/-- The background thread ends a state, and begins none. -/
theorem idle_background {q q' : RxQueue} {a : Allocation} (h : q.background a = some q')
    (hidle : q.state = .IDLE) : q'.state = .IDLE := by
  unfold RxQueue.background at h
  cases hpc : q.pc with
  | lock => simp [hpc, hidle] at h
  | done => simp [hpc] at h
  | loop | setSeed | initDataset =>
      simp only [hpc, Option.some.injEq] at h
      subst h
      exact hidle
  | createDataset item =>
      simp only [hpc, Option.some.injEq] at h
      split at h <;> subst h <;> exact hidle
  | report item =>
      simp only [hpc] at h
      split at h <;> obtain rfl := Option.some.inj h
      · exact hidle
      · rfl

theorem inv_background {q : RxQueue} {a : Allocation} (h : s.Inv)
    (hq : s.queue.background a = some q) : Inv { s with queue := q } where
  queue := RxQueue.inv_background h.queue hq
  unbound hbusy := h.unbound fun hidle => hbusy (idle_background hq hidle)
  ended := h.ended
  plan := h.plan.mono (fun _ => isReady_background h.queue hq) id

theorem inv_onReady [Fintype ι] [DecidableEq ι] (h : s.Inv) (hs : s.onReady = some s') :
    s'.Inv := by
  have hsent : Inv { s with queue := s.queue.onReady.1 } :=
    ⟨RxQueue.inv_onReady h.queue, h.unbound, h.ended, h.plan⟩
  simp only [onReady, Option.ite_none_right_eq_some] at hs
  obtain ⟨-, hs⟩ := hs
  split at hs
  · obtain ⟨t, ht, rfl⟩ := Option.map_eq_some_iff.mp hs
    exact inv_call hsent ht
  · obtain rfl := Option.some.inj hs
    exact hsent

/-! ### Runs -/

variable [Fintype ι] [DecidableEq ι]

theorem inv_step {e : Event ι} (h : s.Inv) (hs : s.step e = some s') : s'.Inv := by
  cases e with
  | call c =>
      obtain ⟨t, ht, rfl⟩ := Option.map_eq_some_iff.mp hs
      exact inv_call h ht
  | main absent mode => exact inv_main h hs
  | onReady => exact inv_onReady h hs
  | worker w valid => exact inv_worker h hs
  | background a =>
      obtain ⟨q, hq, rfl⟩ := Option.map_eq_some_iff.mp hs
      exact inv_background h hq

theorem inv_of_reachable (h : (machine ι N).Reachable s) : s.Inv := by
  refine h.invariant ?_ ?_
  · rintro s ⟨config, rfl⟩
    exact inv_init config
  · intro s e s' hinv _ hs
    exact inv_step hinv hs

/-- **No worker hashes with a dataset that is being made.**  From the moment the background
thread takes an item until it has the lock again, no worker has a machine that is bound to the
dataset. -/
theorem not_hashes (h : (machine ι N).Reachable s) (hinit : s.queue.pc.item ≠ none) (w : ι) :
    ¬ s.Hashes w := by
  have hinv := inv_of_reachable h
  have hbusy : s.queue.state ≠ .IDLE := fun hidle => hinit (hinv.queue.idle hidle).2.1
  rintro ⟨-, -, hbound⟩
  rw [hinv.unbound hbusy w] at hbound
  contradiction

end RxThreads

end

namespace RxThreads

/-- A job for RandomX. -/
def sampleJob (byte : UInt8) : Job :=
  { Job.sample "1" with
    algorithm := .RX_0
    seed := List.replicate 32 byte }

/-- The dataset of a job is being made when the configuration is reloaded; the worker that
the reload starts waits for it. -/
def sampleRun : List (Event Unit) :=
  let main := .main (fun _ => false) .AutoMode
  let background := .background ⟨true, true, true⟩
  [.call (.setJob (sampleJob 1) false false false), main, main, main, main] ++
    List.replicate 3 background ++
    [.call (.onConfigChanged (Miner.sample 1) false), main, main, main] ++
    List.replicate 7 (.worker () true)

theorem not_hashes_sample :
    ∃ s, (machine Unit fun _ => 1).run (init (Miner.sample 1)) sampleRun = some s ∧
      s.queue.pc.item ≠ none ∧ (s.threads.worker ()).pc = .allocate false ∧ ¬ s.Hashes () := by
  have hrun : ((machine Unit fun _ => 1).run (init (Miner.sample 1)) sampleRun).any
      (fun s => s.queue.pc.item.isSome && (s.threads.worker ()).pc = .allocate false) = true := by
    decide +kernel
  obtain ⟨s, hs, hp⟩ := (Option.any_eq_true ..).mp hrun
  simp only [Bool.and_eq_true, decide_eq_true_eq, Option.isSome_iff_ne_none] at hp
  exact ⟨s, hs, hp.1, hp.2, not_hashes (Machine.Reachable.run (.init ⟨_, rfl⟩) hs) hp.1 ()⟩

end RxThreads

end XLArig
