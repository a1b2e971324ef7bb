import XLArig.RxStorage

/-!
# XLArig.RxQueue

`crypto/rx/RxQueue`: the main thread asks for a dataset, and a thread in the background makes
it.

The mutex makes a step of each critical section.  Between the two critical sections of a pass
of the background loop the storage is initialised without the mutex, in as many steps as it
has parts; the main thread may do anything meanwhile.
-/

namespace XLArig

section

variable [RandomX]

/-- `RxQueueItem`, as far as the storage depends on it. -/
structure RxQueueItem where
  seed : RxSeed
  mode : RxMode

namespace RxQueue

/-- `State`. -/
inductive State
  | IDLE
  | PENDING
  | SHUTDOWN
  deriving DecidableEq, Repr

/-- Where the background thread is: before the test of its loop, before the first lock of a
pass, in the parts of `RxBasicStorage::init` for an item, before the second lock, or at its
end. -/
inductive Pc
  | loop
  | lock
  | setSeed (item : RxQueueItem)
  | createDataset (item : RxQueueItem)
  | initDataset (item : RxQueueItem)
  | report (item : RxQueueItem)
  | done

/-- The item for which the storage is being initialised, until the thread has the lock
again. -/
def Pc.item : Pc → Option RxQueueItem
  | setSeed item | createDataset item | initDataset item | report item => some item
  | loop | lock | done => none

end RxQueue

open RxQueue in
/-- `RxQueue`.  `sent` says that the async handle was signalled; the lists keep the seeds that
were asked for, and those with which `RxBasicStorage::init` returned with whether it succeeded,
the newest first. -/
structure RxQueue where
  storage : Option RxBasicStorage
  seed : RxSeed
  state : State
  queue : List RxQueueItem
  pc : Pc
  sent : Bool
  asked : List RxSeed
  finished : List (RxSeed × Bool)

namespace RxQueue

/-- After the constructor. -/
def new : RxQueue where
  storage := none
  seed := .empty
  state := .IDLE
  queue := []
  pc := .loop
  sent := false
  asked := []
  finished := []

/-! ## The main thread -/

/-- `isReady`. -/
def isReady (q : RxQueue) (seed : RxSeed) : Bool :=
  q.storage.any RxBasicStorage.isAllocated && q.state = .IDLE && q.seed = seed

/-- `dataset`. -/
def dataset (q : RxQueue) (job : Job) : Option RxDataset :=
  if q.isReady (.ofJob job) then q.storage.bind (·.dataset job) else none

/-- `enqueue`. -/
def enqueue (q : RxQueue) (item : RxQueueItem) : RxQueue :=
  let q := { q with
    storage := some (q.storage.getD .new)
    asked := item.seed :: q.asked }
  if q.state = .PENDING ∧ q.seed = item.seed then q
  else { q with
    queue := q.queue ++ [item]
    seed := item.seed
    state := .PENDING }

/-- `onReady`, and whether the listener is told. -/
def onReady (q : RxQueue) : RxQueue × Bool := ({ q with sent := false }, q.state = .IDLE)

/-- The destructor, up to its wait for the thread. -/
def shutdown (q : RxQueue) : RxQueue := { q with state := .SHUTDOWN }

/-! ## The background thread -/

/-- A part of `init` is over. -/
def next (q : RxQueue) (f : RxBasicStorage → RxBasicStorage) (pc : Pc) : RxQueue :=
  { q with
    storage := q.storage.map f
    pc }

/-- `init` has returned. -/
def finish (q : RxQueue) (item : RxQueueItem) : RxQueue :=
  { q with
    pc := .report item
    finished := (q.storage.map fun s => (s.seed, s.ready)).toList ++ q.finished }

/-- A step of `backgroundInit`; it waits while the state is idle.  `a` is what the system
answers when memory is asked for. -/
def background (q : RxQueue) (a : Allocation) : Option RxQueue :=
  match q.pc with
  | .loop => some { q with pc := if q.state = .SHUTDOWN then .done else .lock }
  | .lock =>
      match q.state with
      | .IDLE => none
      | .SHUTDOWN => some { q with pc := .loop }
      | .PENDING => q.queue.getLast?.map fun item => { q with
          queue := []
          pc := .setSeed item }
  | .setSeed item => some (q.next (·.setSeed item.seed) (.createDataset item))
  | .createDataset item =>
      let q := q.next (·.createDataset item.mode a) (.initDataset item)
      some (if (q.storage.bind RxBasicStorage.allocation).isSome then q else q.finish item)
  | .initDataset item => some ((q.next (·.initDataset) (.initDataset item)).finish item)
  | .report _ =>
      if q.state = .SHUTDOWN ∨ q.queue ≠ [] then some { q with pc := .loop }
      else some { q with
        state := .IDLE
        sent := true
        pc := .loop }
  | .done => none

/-! ## The system -/

/-- What happens: a call of the main thread, or a step of the background thread. -/
inductive Event
  | enqueue (item : RxQueueItem)
  | onReady
  | shutdown
  | background (a : Allocation)

/-- After the destructor was called no other call is made. -/
def step (q : RxQueue) : Event → Option RxQueue
  | .enqueue item => if q.state = .SHUTDOWN then none else some (q.enqueue item)
  | .onReady => if q.state = .SHUTDOWN ∨ q.sent = false then none else some q.onReady.1
  | .shutdown => some q.shutdown
  | .background a => q.background a

def machine : Machine RxQueue Event where
  init q := q = new
  step := step

/-! ## What holds between two steps -/

/-- The storage has the seed of the item, once that was set; what was reported is what came
of it. -/
def Pc.Started (q : RxQueue) : Pc → Prop
  | .createDataset item | .initDataset item => q.storage.map RxBasicStorage.seed = some item.seed
  | .report item => ∃ ok, q.finished.head? = some (item.seed, ok) ∧
      (q.storage.any RxBasicStorage.isAllocated = true → ok = true)
  | .setSeed _ => q.storage.isSome = true
  | .loop | .lock | .done => True

/-- The last item of the queue, or the one at work if the queue is empty, is for the seed that
was asked for last. -/
def Awaits (q : RxQueue) : Prop :=
  match q.queue.getLast? with
  | some item => item.seed = q.seed
  | none => ∃ item, q.pc.item = some item ∧ item.seed = q.seed

/-- What was asked for last is what was made last. -/
def Settled (q : RxQueue) : Prop :=
  ∃ ok, q.finished.head? = some (q.seed, ok) ∧
    (q.storage.any RxBasicStorage.isAllocated = true → ok = true)

structure Inv (q : RxQueue) : Prop where
  storage : q.storage = none ↔ q.asked = []
  asked : q.asked ≠ [] → q.asked.head? = some q.seed
  queue : q.queue ≠ [] → q.asked ≠ []
  started : q.pc.Started q
  pending : q.state = .PENDING → q.Awaits
  idle : q.state = .IDLE → q.queue = [] ∧ q.pc.item = none ∧ (q.asked ≠ [] → q.Settled)

variable {q q' : RxQueue} {item : RxQueueItem} {e : Event}

theorem inv_new : new.Inv where
  storage := ⟨fun _ => rfl, fun _ => rfl⟩
  asked h := absurd rfl h
  queue h := absurd rfl h
  started := trivial
  pending := nofun
  idle _ := ⟨rfl, rfl, fun h => absurd rfl h⟩

/-! ### The main thread -/

theorem started_allocated (h : q.pc.Started q) (hstorage : q'.storage = some (q.storage.getD .new))
    (hfinished : q'.finished = q.finished) : q.pc.Started q' := by
  cases hs : q.storage with
  | some s =>
      rw [hs, Option.getD_some] at hstorage
      revert h
      cases q.pc <;> simp [Pc.Started, hs, hstorage, hfinished]
  | none =>
      rw [hs, Option.getD_none] at hstorage
      revert h
      cases q.pc <;>
        simp [Pc.Started, hs, hstorage, hfinished, RxBasicStorage.new, RxBasicStorage.isAllocated]

theorem inv_enqueue (h : q.Inv) : (q.enqueue item).Inv := by
  unfold enqueue
  dsimp only
  split
  · next hsame =>
    obtain ⟨hpending, hseed⟩ := hsame
    constructor
    · simp
    · intro _
      simp [hseed]
    · simp
    · exact started_allocated (q := q) h.started rfl rfl
    · intro _
      exact h.pending hpending
    · simp [hpending]
  · constructor
    · simp
    · intro _
      rfl
    · simp
    · exact started_allocated (q := q) h.started rfl rfl
    · intro _
      simp [Awaits]
    · simp

theorem inv_onReady (h : q.Inv) : q.onReady.1.Inv where
  storage := h.storage
  asked := h.asked
  queue := h.queue
  started := h.started
  pending := h.pending
  idle := h.idle

theorem inv_shutdown (h : q.Inv) : q.shutdown.Inv where
  storage := h.storage
  asked := h.asked
  queue := h.queue
  started := h.started
  pending := nofun
  idle := nofun

/-! ### The background thread -/

theorem inv_next (h : q.Inv) {pc : Pc} {f : RxBasicStorage → RxBasicStorage}
    (hpc : pc.item = q.pc.item) (hitem : q.pc.item = some item)
    (hstarted : pc.Started (q.next f pc)) : (q.next f pc).Inv where
  storage := by simpa [next] using h.storage
  asked := h.asked
  queue := h.queue
  started := hstarted
  pending hpending := by
    have hawaits := h.pending hpending
    unfold Awaits at *
    rwa [next, hpc]
  idle hidle := by
    have hnone := (h.idle hidle).2.1
    rw [hitem] at hnone
    contradiction

/-- What `init` leaves is reported under the seed of the item. -/
theorem started_finish {s : RxBasicStorage} (hs : q.storage = some s) (hseed : s.seed = item.seed)
    (hready : s.isAllocated = true → s.ready = true) :
    (Pc.report item).Started (q.finish item) := by
  refine ⟨s.ready, ?_, ?_⟩
  · simp [finish, hs, hseed]
  · simpa [finish, hs] using hready

theorem inv_finish (h : q.Inv) (hitem : q.pc.item = some item)
    (hstarted : (Pc.report item).Started (q.finish item)) : (q.finish item).Inv where
  storage := h.storage
  asked := h.asked
  queue := h.queue
  started := hstarted
  pending hpending := by
    have hawaits := h.pending hpending
    unfold Awaits at *
    rwa [hitem] at hawaits
  idle hidle := by
    have hnone := (h.idle hidle).2.1
    rw [hitem] at hnone
    contradiction

/-- The storage is there while an item is at work. -/
theorem storage_of_started (h : q.pc.Started q) (hpc : q.pc = .createDataset item ∨
    q.pc = .initDataset item) : ∃ s, q.storage = some s ∧ s.seed = item.seed := by
  obtain hpc | hpc := hpc <;>
  · rw [hpc] at h
    simpa [Pc.Started] using h

theorem inv_lock (h : q.Inv) (hpending : q.state = .PENDING)
    (hlast : q.queue.getLast? = some item) :
    Inv { q with
      queue := []
      pc := .setSeed item } where
  storage := h.storage
  asked := h.asked
  queue h := absurd rfl h
  started := by
    have hqueue : q.queue ≠ [] := by
      intro hnil
      simp [hnil] at hlast
    have hsome : q.storage ≠ none := fun hnone => h.queue hqueue (h.storage.mp hnone)
    exact Option.isSome_iff_ne_none.mpr hsome
  pending _ := by
    have hawaits := h.pending hpending
    unfold Awaits at hawaits
    rw [hlast] at hawaits
    exact ⟨item, rfl, hawaits⟩
  idle hidle := by
    rw [hpending] at hidle
    contradiction

/-- The thread goes back to the head of its loop. -/
theorem inv_again (h : q.Inv) (hitem : q.pc.item = some item)
    (hagain : q.state = .SHUTDOWN ∨ q.queue ≠ []) : Inv { q with pc := .loop } where
  storage := h.storage
  asked := h.asked
  queue := h.queue
  started := trivial
  pending hpending := by
    have hawaits := h.pending hpending
    unfold Awaits at *
    obtain hshutdown | hqueue := hagain
    · rw [hshutdown] at hpending
      contradiction
    · rw [List.getLast?_eq_some_getLast hqueue] at hawaits ⊢
      exact hawaits
  idle hidle := by
    have hnone := (h.idle hidle).2.1
    rw [hitem] at hnone
    contradiction

/-- Nothing was asked for while the item was made, so it is the last one. -/
theorem inv_idle (h : q.Inv) (hpc : q.pc = .report item) (hstate : q.state ≠ .SHUTDOWN)
    (hqueue : q.queue = []) :
    Inv { q with
      state := .IDLE
      sent := true
      pc := .loop } where
  storage := h.storage
  asked := h.asked
  queue := h.queue
  started := trivial
  pending := nofun
  idle _ := by
    refine ⟨hqueue, rfl, fun _ => ?_⟩
    have hpending : q.state = .PENDING := by
      cases hs : q.state with
      | IDLE =>
          have hnone := (h.idle hs).2.1
          rw [hpc] at hnone
          contradiction
      | PENDING => rfl
      | SHUTDOWN => exact absurd hs hstate
    obtain ⟨item', hitem', hseed⟩ : ∃ item', q.pc.item = some item' ∧ item'.seed = q.seed := by
      have hawaits := h.pending hpending
      unfold Awaits at hawaits
      rwa [hqueue] at hawaits
    rw [hpc] at hitem'
    obtain rfl := Option.some.inj hitem'
    have hstarted := h.started
    rw [hpc] at hstarted
    unfold Settled
    rw [← hseed]
    exact hstarted

theorem inv_background {a : Allocation} (h : q.Inv) (hq : q.background a = some q') : q'.Inv := by
  unfold background at hq
  cases hpc : q.pc with
  | loop =>
      simp only [hpc, Option.some.injEq] at hq
      subst hq
      have hitem : (if q.state = .SHUTDOWN then Pc.done else .lock).item = q.pc.item := by
        rw [hpc]
        split <;> rfl
      constructor
      · exact h.storage
      · exact h.asked
      · exact h.queue
      · dsimp only
        split <;> trivial
      · intro hpending
        have hawaits := h.pending hpending
        unfold Awaits at *
        rwa [hitem]
      · intro hidle
        have hidle := h.idle hidle
        rwa [← hitem] at hidle
  | lock =>
      simp only [hpc] at hq
      cases hs : q.state with
      | IDLE => simp [hs] at hq
      | SHUTDOWN =>
          simp only [hs, Option.some.injEq] at hq
          subst hq
          exact ⟨h.storage, h.asked, h.queue, trivial, by simp, by simp⟩
      | PENDING =>
          simp only [hs, Option.map_eq_some_iff] at hq
          obtain ⟨item, hlast, rfl⟩ := hq
          simpa [hs] using inv_lock h hs hlast
  | setSeed item =>
      simp only [hpc, Option.some.injEq] at hq
      subst hq
      have hitem : q.pc.item = some item := by
        rw [hpc]
        rfl
      have hstarted := h.started
      rw [hpc] at hstarted
      obtain ⟨s, hs⟩ := Option.isSome_iff_exists.mp hstarted
      refine inv_next h hitem.symm hitem ?_
      simp [Pc.Started, next, hs, RxBasicStorage.setSeed]
  | createDataset item =>
      simp only [hpc, Option.some.injEq] at hq
      obtain ⟨s, hs, hseed⟩ := storage_of_started h.started (.inl hpc)
      have hseed' : (s.createDataset item.mode a).seed = item.seed := by
        rw [← hseed]
        unfold RxBasicStorage.createDataset
        split <;> rfl
      have hnext : (q.next (·.createDataset item.mode a) (.initDataset item)).Inv := by
        have hitem : q.pc.item = some item := by
          rw [hpc]
          rfl
        refine inv_next h hitem.symm hitem ?_
        simp [Pc.Started, next, hs, hseed']
      split at hq <;> subst hq
      · exact hnext
      · next hnone =>
        refine inv_finish hnext rfl (started_finish (by simp only [next, hs, Option.map_some]) hseed' ?_)
        simp only [next, hs, Option.map_some, Option.bind_some, Option.not_isSome_iff_eq_none] at hnone
        simp [RxBasicStorage.isAllocated, hnone]
  | initDataset item =>
      simp only [hpc, Option.some.injEq] at hq
      subst hq
      obtain ⟨s, hs, hseed⟩ := storage_of_started h.started (.inr hpc)
      have hseed' : s.initDataset.seed = item.seed := by
        rw [← hseed]
        unfold RxBasicStorage.initDataset
        split <;> rfl
      have hnext : (q.next (·.initDataset) (.initDataset item)).Inv := by
        have hitem : q.pc.item = some item := by
          rw [hpc]
          rfl
        refine inv_next h hitem.symm hitem ?_
        simp [Pc.Started, next, hs, hseed']
      exact inv_finish hnext rfl (started_finish (by simp only [next, hs, Option.map_some]) hseed'
        RxBasicStorage.ready_of_isAllocated)
  | report item =>
      simp only [hpc] at hq
      have hitem : q.pc.item = some item := by
        rw [hpc]
        rfl
      split at hq <;> obtain rfl := Option.some.inj hq
      · next hagain => exact inv_again h hitem hagain
      · next hidle =>
        obtain ⟨hstate, hqueue⟩ := not_or.mp hidle
        exact inv_idle h hpc hstate (not_not.mp hqueue)
  | done =>
      simp only [hpc] at hq
      contradiction

/-! ### Runs -/

theorem inv_step (h : q.Inv) (hq : q.step e = some q') : q'.Inv := by
  cases e with
  | enqueue item =>
      simp only [step, Option.ite_none_left_eq_some, Option.some.injEq] at hq
      obtain ⟨-, rfl⟩ := hq
      exact inv_enqueue h
  | onReady =>
      simp only [step, Option.ite_none_left_eq_some, Option.some.injEq] at hq
      obtain ⟨-, rfl⟩ := hq
      exact inv_onReady h
  | shutdown =>
      obtain rfl := Option.some.inj hq
      exact inv_shutdown h
  | background a => exact inv_background h hq

theorem inv_of_reachable (h : machine.Reachable q) : q.Inv := by
  refine h.invariant ?_ ?_
  · rintro q rfl
    exact inv_new
  · intro q e q' hinv _ hq
    exact inv_step hinv hq

/-! ## What is reported -/

theorem of_isReady {seed : RxSeed} (h : q.Inv) (hready : q.isReady seed = true) :
    q.pc.item = none ∧ q.queue = [] ∧ q.finished.head? = some (seed, true) := by
  simp only [isReady, Bool.and_eq_true, decide_eq_true_eq] at hready
  obtain ⟨⟨hallocated, hidle⟩, rfl⟩ := hready
  obtain ⟨hqueue, hitem, hsettled⟩ := h.idle hidle
  have hasked : q.asked ≠ [] := by
    intro hnil
    rw [h.storage.mpr hnil] at hallocated
    contradiction
  obtain ⟨ok, hhead, hok⟩ := hsettled hasked
  exact ⟨hitem, hqueue, by rw [hhead, hok hallocated]⟩

theorem isReady_of_dataset {job : Job} (h : q.dataset job ≠ none) :
    q.isReady (.ofJob job) = true := by
  unfold dataset at h
  split at h
  · assumption
  · exact absurd rfl h

/-- **What is ready was made last.**  When a seed is ready, or there is a dataset for a job,
nothing is being made or waits for it, and what was made last, with success, was for this
seed.  While the state is pending something waits or is being made.  When it is idle, what was
made last is what was asked for last. -/
theorem made_last (h : machine.Reachable q) :
    (∀ seed, q.isReady seed = true →
      q.pc.item = none ∧ q.queue = [] ∧ q.finished.head? = some (seed, true)) ∧
    (∀ job, q.dataset job ≠ none →
      q.pc.item = none ∧ q.queue = [] ∧ q.finished.head? = some (.ofJob job, true)) ∧
    (q.state = .PENDING → q.queue ≠ [] ∨ q.pc.item ≠ none) ∧
    (q.state = .IDLE → q.asked ≠ [] → q.finished.head?.map Prod.fst = q.asked.head?) := by
  have hinv := inv_of_reachable h
  refine ⟨fun _ => of_isReady hinv, fun _ hdataset => of_isReady hinv (isReady_of_dataset hdataset),
    ?_, ?_⟩
  · intro hpending
    by_contra hnot
    obtain ⟨hqueue, hitem⟩ := not_or.mp hnot
    have hawaits := hinv.pending hpending
    unfold Awaits at hawaits
    rw [not_not.mp hqueue, not_not.mp hitem] at hawaits
    simp at hawaits
  · intro hidle hasked
    obtain ⟨ok, hhead, -⟩ := (hinv.idle hidle).2.2 hasked
    rw [hhead, hinv.asked hasked]
    rfl

end RxQueue

end

namespace RxQueue

def sampleItem (byte : UInt8) : RxQueueItem where
  seed := ⟨.RX_0, List.replicate 32 byte⟩
  mode := .AutoMode

/-- A second seed is asked for while the first is being made. -/
def sampleRun : List Event :=
  let step := .background ⟨true, true, true⟩
  [.enqueue (sampleItem 1), step, step, .enqueue (sampleItem 2)] ++ List.replicate 10 step

theorem made_last_sample :
    ∃ q, machine.run new sampleRun = some q ∧ q.isReady (sampleItem 2).seed = true ∧
      q.pc.item = none ∧ q.queue = [] ∧
      q.finished.head? = some ((sampleItem 2).seed, true) := by
  have hrun : ∃ q, machine.run new sampleRun = some q ∧
      q.isReady (sampleItem 2).seed = true := ⟨_, rfl, rfl⟩
  obtain ⟨q, hq, hready⟩ := hrun
  exact ⟨q, hq, hready, (made_last (Machine.Reachable.run (.init rfl) hq)).1 _ hready⟩

end RxQueue

end XLArig
