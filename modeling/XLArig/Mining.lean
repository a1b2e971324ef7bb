import XLArig.Miner
import XLArig.WorkerJob.Field

/-!
# XLArig.Mining

The miner and its workers: the main thread publishes jobs and resets counters,
the workers consume them and reserve windows of nonces.

`Miner::setJob` decides about a reset from the previous index and the id of the
job; a worker decides from full equality and its two slots.  The two disagree
when a job comes back: the counter restarts, and the workers that hold the job go
on with windows from before.  `reserved_once` says when no nonce of a job is
reserved twice.
-/

namespace XLArig

/-- A call of `Nonce::next` for a lane: the job it is for, the counter it asks, the
number of resets that counter has seen, and the window it is granted, if any. -/
structure Reservation where
  job : Job
  index : Fin 2
  period : Nat
  counter : Option UInt64

namespace Reservation

/-- The windows of the two reservations do not overlap. -/
def Apart (r q : Reservation) : Prop :=
  ∀ c ∈ r.counter, ∀ d ∈ q.counter,
    (⟨c.toNat, reserveCount.toNat⟩ : Window).Apart ⟨d.toNat, reserveCount.toNat⟩

/-- Both are for one job, as `Job::isEqual` compares them. -/
def SameJob (r q : Reservation) : Prop := r.job.isEqual q.job = true

/-- Both ask one counter between the same two resets. -/
def SamePeriod (r q : Reservation) : Prop := r.index = q.index ∧ r.period = q.period

variable {r q : Reservation}

instance : Decidable (r.Apart q) := inferInstanceAs (Decidable (∀ c ∈ r.counter, ∀ d ∈ _, _))

instance : Decidable (r.SameJob q) := inferInstanceAs (Decidable (_ = true))

end Reservation

/-- The miner and its workers.  `taken` is the job each slot of a worker was
filled with, and the period of its counter then; `log` holds the reservations of
the whole run, the newest first. -/
structure Mining (ι : Type*) (N : ι → Nat) where
  miner : Miner
  worker : (w : ι) → WorkerJob (N w)
  taken : ι → Fin 2 → Option (Job × Nat)
  log : List Reservation

namespace Mining

open WorkerJob (add_saves add_drawn save_results nextRound_requests nextRound_walks nextRound_drawn)

variable {ι : Type*} [DecidableEq ι] {N : ι → Nat}

/-- What happens: the main thread moves, touches the sequence numbers, or creates
a worker anew; a worker consumes the miner's job or goes on to its next round. -/
inductive Event (ι : Type*)
  | main (e : Miner.Event)
  | touch
  | restart (w : ι)
  | consumeJob (w : ι)
  | nextRound (w : ι)

/-- Worker `w` has asked the counter of `index` for windows for `job`. -/
def reserve (s : Mining ι N) (w : ι) (σ : Nonce) (wj : WorkerJob (N w)) (job : Job)
    (index : Fin 2) (counters : List (Option UInt64)) : Mining ι N :=
  { s with
    miner := { s.miner with nonce := σ }
    worker := Function.update s.worker w wj
    log := counters.map (⟨job, index, s.miner.nonce.period index, ·⟩) ++ s.log }

/-- The slot of worker `w` for `job` was filled. -/
def take (s : Mining ι N) (w : ι) (job : Job) : Mining ι N :=
  { s with
    taken := Function.update s.taken w
      (Function.update (s.taken w) job.index (some (job, s.miner.nonce.period job.index))) }

variable [Features]

/-- `CpuWorker::consumeJob`. -/
def consumeJob (s : Mining ι N) (w : ι) : Mining ι N :=
  if s.miner.nonce.sequence .CPU = 0 then s
  else
    let job := s.miner.job
    let (σ, wj, counters) := (s.worker w).add s.miner.nonce job reserveCount .CPU
    let s' := s.reserve w σ wj job job.index counters
    if (s.worker w).saves job then s'.take w job else s'

/-- A worker that holds no job has nothing to hash. -/
def nextRound (s : Mining ι N) (w : ι) : Option (Mining ι N) :=
  (s.taken w (s.worker w).index).map fun held =>
    let (σ, wj, counters, _) := (s.worker w).nextRound s.miner.nonce reserveCount 1
    s.reserve w σ wj held.1 (s.worker w).index (counters.map some)

/-- Workers only move while the backend has threads. -/
def step (s : Mining ι N) : Event ι → Option (Mining ι N)
  | .main e => (s.miner.step e).map fun miner => { s with miner }
  | .touch => some { s with miner := s.miner.touch }
  | .restart w =>
      some { s with
        worker := Function.update s.worker w .empty
        taken := Function.update s.taken w fun _ => none }
  | .consumeJob w => if s.miner.backend.threads = [] then none else some (s.consumeJob w)
  | .nextRound w => if s.miner.backend.threads = [] then none else s.nextRound w

/-- The miner and the workers as they are created. -/
def init (config : Config) : Mining ι N := ⟨.init config, fun _ => .empty, fun _ _ => none, []⟩

def machine (ι : Type*) [DecidableEq ι] (N : ι → Nat) : Machine (Mining ι N) (Event ι) where
  init s := ∃ config, s = init config
  step := step

/-! ## Which job changes are safe -/

/-- The nonces of `job` that were reserved came from the counter the job will be
worked on with: no reservation is left behind by a reset. -/
def Fresh (s : Mining ι N) (job : Job) (reset : Bool) : Prop :=
  ∀ r ∈ s.log, r.job.isEqual job = true →
    reset = false ∧ r.index = job.index ∧ r.period = s.miner.nonce.period job.index

instance (s : Mining ι N) (job : Job) (reset : Bool) : Decidable (s.Fresh job reset) :=
  inferInstanceAs (Decidable (∀ r ∈ s.log, _ → _))

/-- The counter of `index` has `n` windows left before it wraps around. -/
def NoWrap (s : Mining ι N) (index : Fin 2) (n : Nat) : Prop :=
  (s.miner.nonce.nonces index).toNat + n * reserveCount.toNat < 2 ^ 64

instance (s : Mining ι N) (index : Fin 2) (n : Nat) : Decidable (s.NoWrap index n) :=
  inferInstanceAs (Decidable (_ < _))

/-- A published job was only worked on with the counter it goes on with, and a
worker only asks for further windows in the period it took its job in. -/
def Guarded (s : Mining ι N) : Event ι → Prop
  | .main e =>
      match s.miner.publishes e with
      | some (job, reset) => s.Fresh job reset
      | none => True
  | .consumeJob w => s.NoWrap s.miner.job.index (N w)
  | .nextRound w => (s.worker w).atBoundary reserveCount →
      (∀ held ∈ s.taken w (s.worker w).index,
        held.2 = s.miner.nonce.period (s.worker w).index) ∧ s.NoWrap (s.worker w).index (N w)
  | .touch | .restart _ => True

instance (s : Mining ι N) : (e : Event ι) → Decidable (s.Guarded e)
  | .main e =>
      match h : s.miner.publishes e with
      | some (job, reset) => decidable_of_iff (s.Fresh job reset) (by simp only [Guarded, h])
      | none => .isTrue (by simp only [Guarded, h])
  | .consumeJob _ => inferInstanceAs (Decidable (_ < _))
  | .nextRound _ => inferInstanceAs (Decidable (_ → _))
  | .touch => inferInstanceAs (Decidable True)
  | .restart _ => inferInstanceAs (Decidable True)

/-! ## The invariant -/

/-- Reservations lie below the counter they were granted by; those for one job
come from one counter period, and those for the miner's job from the current one. -/
structure Inv (s : Mining ι N) : Prop where
  aligned : ∀ k, s.miner.nonce.Aligned k reserveCount
  period_le : ∀ r ∈ s.log, r.period ≤ s.miner.nonce.period r.index
  below : ∀ r ∈ s.log, r.period = s.miner.nonce.period r.index → ∀ c, r.counter = some c →
    c.toNat + reserveCount.toNat ≤ (s.miner.nonce.nonces r.index).toNat
  apart : s.log.Pairwise fun r q => r.SamePeriod q → r.Apart q
  one : ∀ r ∈ s.log, ∀ q ∈ s.log, r.SameJob q → r.SamePeriod q
  current : s.Fresh s.miner.job false
  taken : ∀ w k job period, s.taken w k = some (job, period) →
    N w = 0 ∨ ∃ r ∈ s.log, r.job = job ∧ r.index = k ∧ r.period = period

variable {s s' : Mining ι N} {w : ι}

omit [DecidableEq ι] [Features] in
theorem inv_init (config : Config) : (init config : Mining ι N).Inv where
  aligned := fun _ => Nat.dvd_zero _
  period_le := fun _ h => absurd h List.not_mem_nil
  below := fun _ h => absurd h List.not_mem_nil
  apart := .nil
  one := fun _ h => absurd h List.not_mem_nil
  current := fun _ h => absurd h List.not_mem_nil
  taken := fun _ _ _ _ h => by contradiction

/-! ### Workers -/

omit [Features] in
/-- Reserving for a job whose reservations all come from the current period of
the counter. -/
theorem Inv.reserve (h : s.Inv) {σ : Nonce} {wj : WorkerJob (N w)} {job : Job} {index : Fin 2}
    {counters : List (Option UInt64)} {mask : UInt64} {n : Nat}
    (hd : Nonce.Drawn index reserveCount mask n s.miner.nonce σ counters.reduceOption)
    (hjob : counters ≠ [] → ∀ r ∈ s.log, r.job.isEqual job = true →
      r.index = index ∧ r.period = s.miner.nonce.period index)
    (hmine : counters ≠ [] → job.isEqual s.miner.job = true → index = s.miner.job.index) :
    (s.reserve w σ wj job index counters).Inv := by
  have hnew : ∀ r ∈ counters.map (fun c => (⟨job, index, s.miner.nonce.period index, c⟩ : Reservation)),
      r.job = job ∧ r.index = index ∧ r.period = s.miner.nonce.period index ∧ counters ≠ [] ∧
        ∀ c, r.counter = some c → c ∈ counters.reduceOption := by
    intro r hr
    obtain ⟨c, hc, rfl⟩ := List.mem_map.mp hr
    refine ⟨rfl, rfl, rfl, List.ne_nil_of_mem hc, ?_⟩
    rintro d rfl
    exact List.reduceOption_mem_iff.mpr hc
  have hgrows : ∀ k, (s.miner.nonce.nonces k).toNat ≤ (σ.nonces k).toNat := by
    intro k
    by_cases hk : k = index
    · rw [hk]
      exact hd.le
    · rw [hd.nonces_of_ne hk]
  constructor
  · intro k
    show reserveCount.toNat ∣ (σ.nonces k).toNat
    by_cases hk : k = index
    · rw [hk]
      exact hd.aligned
    · rw [hd.nonces_of_ne hk]
      exact h.aligned k
  · intro r hr
    show r.period ≤ σ.period r.index
    rw [hd.period]
    cases List.mem_append.mp hr with
    | inl hr =>
        obtain ⟨-, hi, hp, -⟩ := hnew r hr
        rw [hi, hp]
    | inr hr => exact h.period_le r hr
  · intro r hr hp c hc
    show c.toNat + reserveCount.toNat ≤ (σ.nonces r.index).toNat
    cases List.mem_append.mp hr with
    | inl hr =>
        obtain ⟨-, hi, -, -, hmem⟩ := hnew r hr
        rw [hi]
        exact (hd.inside c (hmem c hc)).2.1
    | inr hr =>
        change r.period = σ.period r.index at hp
        rw [hd.period] at hp
        exact (h.below r hr hp c hc).trans (hgrows r.index)
  · show List.Pairwise _ (_ ++ s.log)
    rw [List.pairwise_append]
    refine ⟨?_, h.apart, ?_⟩
    · rw [List.pairwise_map]
      have hap := List.pairwise_filterMap.mp hd.apart
      exact hap.imp fun hab _ c hc d hd => .inl (hab c hc d hd)
    · rintro r hr q hq ⟨hi, hp⟩ c hc d hdq
      obtain ⟨-, hri, hrp, -, hmem⟩ := hnew r hr
      have hqp : q.period = s.miner.nonce.period q.index := by rw [← hp, ← hi, hrp, hri]
      have hbelow := h.below q hq hqp d hdq
      rw [← hi, hri] at hbelow
      exact .inr (hbelow.trans (hd.inside c (hmem c hc)).1)
  · intro r hr q hq hsame
    cases List.mem_append.mp hr with
    | inl hr =>
        obtain ⟨hrj, hri, hrp, hne, -⟩ := hnew r hr
        cases List.mem_append.mp hq with
        | inl hq =>
            obtain ⟨-, hqi, hqp, -⟩ := hnew q hq
            exact ⟨hri.trans hqi.symm, hrp.trans hqp.symm⟩
        | inr hq =>
            rw [Reservation.SameJob, hrj] at hsame
            obtain ⟨hqi, hqp⟩ := hjob hne q hq (Job.isEqual_symm hsame)
            exact ⟨hri.trans hqi.symm, hrp.trans hqp.symm⟩
    | inr hr =>
        cases List.mem_append.mp hq with
        | inl hq =>
            obtain ⟨hqj, hqi, hqp, hne, -⟩ := hnew q hq
            rw [Reservation.SameJob, hqj] at hsame
            obtain ⟨hri, hrp⟩ := hjob hne r hr hsame
            exact ⟨hri.trans hqi.symm, hrp.trans hqp.symm⟩
        | inr hq => exact h.one r hr q hq hsame
  · intro r hr heq
    show false = false ∧ r.index = s.miner.job.index ∧ r.period = σ.period s.miner.job.index
    rw [hd.period]
    cases List.mem_append.mp hr with
    | inl hr =>
        obtain ⟨hrj, hri, hrp, hne, -⟩ := hnew r hr
        rw [hrj] at heq
        have hi := hmine hne heq
        exact ⟨rfl, hri.trans hi, by rw [hrp, hi]⟩
    | inr hr => exact h.current r hr heq
  · intro v k job' period ht
    refine (h.taken v k job' period ht).imp_right ?_
    rintro ⟨r, hr, hrest⟩
    exact ⟨r, List.mem_append_right _ hr, hrest⟩

omit [Features] in
theorem Inv.take (h : s.Inv) {job : Job} (hlog : N w = 0 ∨ ∃ r ∈ s.log, r.job = job ∧
    r.index = job.index ∧ r.period = s.miner.nonce.period job.index) : (s.take w job).Inv := by
  refine { h with taken := ?_ }
  intro v k job' period ht
  change Function.update s.taken w _ v k = _ at ht
  by_cases hvw : v = w
  · subst hvw
    rw [Function.update_self] at ht
    by_cases hk : k = job.index
    · subst hk
      rw [Function.update_self, Option.some.injEq, Prod.mk.injEq] at ht
      obtain ⟨rfl, rfl⟩ := ht
      exact hlog
    · rw [Function.update_of_ne hk] at ht
      exact h.taken v k job' period ht
  · rw [Function.update_of_ne hvw] at ht
    exact h.taken v k job' period ht

/-- Whatever a worker consumes is the miner's job, so it is worked on with the
current period of its counter. -/
theorem Inv.consumeJob (h : s.Inv) (hwrap : s.NoWrap s.miner.job.index (N w)) :
    (s.consumeJob w).Inv := by
  have hjob : ∀ r ∈ s.log, r.job.isEqual s.miner.job = true →
      r.index = s.miner.job.index ∧ r.period = s.miner.nonce.period s.miner.job.index :=
    fun r hr heq => (h.current r hr heq).2
  unfold Mining.consumeJob
  split
  · exact h
  · dsimp only
    have hd := add_drawn (w := s.worker w) s.miner.job (h.aligned _) hwrap
    have hlen : (s.worker w).saves s.miner.job = true →
        ((s.worker w).add s.miner.nonce s.miner.job reserveCount .CPU).2.2.length = N w := by
      intro hsaves
      rw [add_saves hsaves, save_results, Nonce.length_requests]
    generalize (s.worker w).add s.miner.nonce s.miner.job reserveCount .CPU = x at hd hlen ⊢
    obtain ⟨σ, wj, counters⟩ := x
    have hres : (s.reserve w σ wj s.miner.job s.miner.job.index counters).Inv :=
      h.reserve hd (fun _ => hjob) fun _ _ => rfl
    have hperiod := hd.period
    simp only at hperiod hlen ⊢
    split
    · next hsaves =>
      apply hres.take
      cases counters with
      | nil => exact .inl (hlen hsaves).symm
      | cons c cs =>
          refine .inr ⟨_, List.mem_cons_self, rfl, rfl, ?_⟩
          show s.miner.nonce.period _ = σ.period _
          rw [hperiod]
    · exact hres

/-- A worker goes on with a job whose reservations come from one period, the
current one. -/
theorem Inv.nextRound (h : s.Inv) (hg : s.Guarded (.nextRound w)) (hs : s.nextRound w = some s') :
    s'.Inv := by
  simp only [Mining.nextRound, Option.map_eq_some_iff, Prod.exists] at hs
  obtain ⟨job, period, htaken, hs⟩ := hs
  have hd := nextRound_drawn (w := s.worker w) (h.aligned _) fun hb => (hg hb).2
  have hnil : ¬ (s.worker w).atBoundary reserveCount →
      ((s.worker w).nextRound s.miner.nonce reserveCount 1).2.2.1 = [] :=
    fun hb => by rw [(nextRound_walks s.miner.nonce 1 hb).2]
  have hlen : ((s.worker w).nextRound s.miner.nonce reserveCount 1).2.2.1.length ≤ N w := by
    by_cases hb : (s.worker w).atBoundary reserveCount
    · rw [(nextRound_requests s.miner.nonce 1 hb).2]
      exact (Nonce.length_requestsWhile ..).1
    · rw [hnil hb]
      exact Nat.zero_le _
  generalize (s.worker w).nextRound s.miner.nonce reserveCount 1 = x at hd hs hnil hlen
  obtain ⟨σ, wj, cs, ok⟩ := x
  simp only at hd hs hnil hlen
  subst hs
  have hcs : (cs.map some).reduceOption = cs := by
    rw [List.reduceOption, List.filterMap_map, Function.id_comp, List.filterMap_some]
  rw [← hcs] at hd
  have hcur : cs.map some ≠ [] → period = s.miner.nonce.period (s.worker w).index := by
    intro hne
    by_cases hb : (s.worker w).atBoundary reserveCount
    · exact (hg hb).1 _ htaken
    · exact absurd (by rw [hnil hb]; rfl) hne
  have hlog : cs.map some ≠ [] → ∃ r ∈ s.log, r.job = job ∧ r.index = (s.worker w).index ∧
      r.period = period := by
    intro hne
    cases h.taken w _ job period htaken with
    | inl hnone =>
        have hnil : cs = [] := List.eq_nil_of_length_eq_zero (by omega)
        rw [hnil] at hne
        exact absurd rfl hne
    | inr hlog => exact hlog
  apply h.reserve hd
  · intro hne r hr heq
    obtain ⟨q, hq, hqj, hqi, hqp⟩ := hlog hne
    rw [← hqj] at heq
    obtain ⟨hi, hp⟩ := h.one r hr q hq heq
    exact ⟨hi.trans hqi, hp.trans (hqp.trans (hcur hne))⟩
  · intro hne heq
    obtain ⟨q, hq, hqj, hqi, hqp⟩ := hlog hne
    rw [← hqj] at heq
    rw [← hqi]
    exact (h.current q hq heq).2.1

/-! ### The main thread -/

omit [Features] [DecidableEq ι] in
/-- The main thread publishes a job, with a reset of its counter or without. -/
theorem Inv.publish (h : s.Inv) {m : Miner} {job : Job} {reset : Bool}
    (hfresh : s.Fresh job reset)
    (hm : m.Shows job (if reset then s.miner.nonce.reset job.index else s.miner.nonce)) : Inv { s with miner := m } := by
  -- a reset restarts the counter with a period of its own
  have hcounter : ∀ k, (m.nonce.nonces k = s.miner.nonce.nonces k ∧
        m.nonce.period k = s.miner.nonce.period k) ∨
      (m.nonce.nonces k = 0 ∧ m.nonce.period k = s.miner.nonce.period k + 1) := by
    intro k
    rw [hm.nonces, hm.period]
    cases reset with
    | false => exact .inl ⟨rfl, rfl⟩
    | true =>
        by_cases hk : k = job.index
        · subst hk
          exact .inr ⟨Function.update_self .., Function.update_self ..⟩
        · exact .inl ⟨Function.update_of_ne hk .., Function.update_of_ne hk ..⟩
  constructor
  · intro k
    show reserveCount.toNat ∣ (m.nonce.nonces k).toNat
    cases hcounter k with
    | inl hk => rw [hk.1]; exact h.aligned k
    | inr hk => rw [hk.1]; exact Nat.dvd_zero _
  · intro r hr
    show r.period ≤ m.nonce.period r.index
    have hle := h.period_le r hr
    cases hcounter r.index <;> omega
  · intro r hr hp c hc
    show c.toNat + reserveCount.toNat ≤ (m.nonce.nonces r.index).toNat
    change r.period = m.nonce.period r.index at hp
    have hle := h.period_le r hr
    cases hcounter r.index with
    | inl hk =>
        rw [hk.1]
        exact h.below r hr (hp.trans hk.2) c hc
    | inr hk => omega
  · exact h.apart
  · exact h.one
  · intro r hr heq
    show false = false ∧ r.index = m.job.index ∧ r.period = m.nonce.period m.job.index
    change r.job.isEqual m.job = true at heq
    rw [hm.job] at heq ⊢
    obtain ⟨rfl, hi, hp⟩ := hfresh r hr heq
    exact ⟨rfl, hi, by rw [hm.period]; exact hp⟩
  · exact h.taken

omit [DecidableEq ι] in
theorem Inv.main (h : s.Inv) {e : Miner.Event} {m : Miner} (hg : s.Guarded (.main e))
    (hs : s.miner.step e = some m) : Inv { s with miner := m } := by
  have hshows := Miner.step_publishes hs
  simp only [Guarded] at hg
  cases hpub : s.miner.publishes e with
  | none =>
      rw [hpub] at hshows
      exact h.publish h.current hshows
  | some x =>
      rw [hpub] at hshows hg
      exact h.publish hg hshows

/-! ### Runs -/

theorem inv_step {e : Event ι} (h : s.Inv) (hg : s.Guarded e) (hs : step s e = some s') :
    s'.Inv := by
  cases e with
  | main e =>
      simp only [step, Option.map_eq_some_iff] at hs
      obtain ⟨m, hm, rfl⟩ := hs
      exact h.main hg hm
  | touch =>
      obtain rfl := Option.some.inj hs
      exact { h with }
  | restart w =>
      obtain rfl := Option.some.inj hs
      refine { h with taken := ?_ }
      intro v k job period ht
      change Function.update s.taken w _ v k = _ at ht
      by_cases hvw : v = w
      · subst hvw
        rw [Function.update_self] at ht
        contradiction
      · rw [Function.update_of_ne hvw] at ht
        exact h.taken v k job period ht
  | consumeJob w =>
      simp only [step, Option.ite_none_left_eq_some, Option.some.injEq] at hs
      obtain ⟨-, rfl⟩ := hs
      exact h.consumeJob hg
  | nextRound w =>
      simp only [step, Option.ite_none_left_eq_some] at hs
      exact h.nextRound hg hs.2

theorem inv_of_reachable (h : (machine ι N).ReachableIf Guarded s) : s.Inv := by
  apply h.invariant
  · rintro s ⟨config, rfl⟩
    exact inv_init config
  · exact fun _ _ _ => inv_step

/-- **No nonce of a job is reserved twice**, in every run in which a job is only
published with the counter its nonces come from.  All reservations for one job,
also those a worker still holds, come from one counter between the same two
resets, and their windows do not overlap. -/
theorem reserved_once (h : (machine ι N).ReachableIf Guarded s) :
    (s.log.Pairwise fun r q => r.SameJob q → r.SamePeriod q ∧ r.Apart q) ∧
      ∀ w k job period, s.taken w k = some (job, period) → 0 < N w →
        ∀ r ∈ s.log, r.job.isEqual job = true → r.index = k ∧ r.period = period := by
  have hinv := inv_of_reachable h
  constructor
  · have hone : s.log.Pairwise fun r q => r.SameJob q → r.SamePeriod q :=
      List.pairwise_of_forall_mem_list hinv.one
    exact hone.imp₂ (fun _ _ hperiod hapart hsame => ⟨hperiod hsame, hapart (hperiod hsame)⟩)
      hinv.apart
  · intro w k job period ht hN r hr heq
    obtain ⟨q, hq, rfl, rfl, rfl⟩ := (hinv.taken w k job period ht).resolve_left (by omega)
    exact hinv.one r hr q hq heq

end Mining

end XLArig

namespace XLArig.Mining

/-! ## Runs of two workers with one lane each -/

set_option maxRecDepth 10000 in
/-- A donation round between two users' jobs: the user's job goes on where it was. -/
theorem reserved_once_donate : ∃ s : Mining (Fin 2) fun _ => 1, s.log.length = 3 ∧
    s.log.Pairwise fun r q => r.SameJob q → r.SamePeriod q ∧ r.Apart q := by
  let events : List (Event (Fin 2)) :=
    [.main (.setJob (.sample "1") false false true), .consumeJob 0,
      .main (.setJob (.sample "2") true false true), .consumeJob 0,
      .main (.setJob (.sample "1") false false true), .consumeJob 0, .consumeJob 1]
  have h0 : (machine (Fin 2) fun _ => 1).init (init (Miner.sample 2)) := ⟨_, rfl⟩
  have hm : (machine (Fin 2) fun _ => 1).Meets Guarded (init (Miner.sample 2)) events := by decide
  have hrun : ((machine (Fin 2) fun _ => 1).run (init (Miner.sample 2)) events).any
      (fun s => decide (s.log.length = 3)) = true := by decide
  obtain ⟨s, hs, hp⟩ := Machine.ReachableIf.exists_of_run h0 hm hrun
  exact ⟨s, of_decide_eq_true hp, (reserved_once hs).1⟩

/-- **A window is reserved twice.**  The job a strategy delivers again resets its
counter; one worker holds a window from before, and the other one starts over. -/
theorem reserved_twice : ∃ s : Mining (Fin 2) fun _ => 1,
    (machine (Fin 2) fun _ => 1).Reachable s ∧
      ¬ s.log.Pairwise fun r q => r.SameJob q → r.Apart q := by
  let events : List (Event (Fin 2)) :=
    [.main (.setJob (.sample "1") false false true), .consumeJob 0,
      .main (.setJob (.sample "1") false false true), .consumeJob 1]
  have h0 : (machine (Fin 2) fun _ => 1).init (init (Miner.sample 2)) := ⟨_, rfl⟩
  have hlog : ((machine (Fin 2) fun _ => 1).run (init (Miner.sample 2)) events).map log =
      some [⟨.sample "1", userIndex, 2, some 0⟩, ⟨.sample "1", userIndex, 1, some 0⟩] := rfl
  obtain ⟨s, hrun, hs⟩ := Option.map_eq_some_iff.mp hlog
  refine ⟨s, .run (.init h0) hrun, ?_⟩
  rw [hs, List.pairwise_pair]
  intro hapart
  have hlap := hapart (Job.isEqual_refl _) 0 rfl 0 rfl
  exact absurd hlap (by decide)

end XLArig.Mining
