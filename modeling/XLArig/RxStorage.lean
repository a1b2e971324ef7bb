import XLArig.Machine
import XLArig.RandomX

/-!
# XLArig.RxStorage

`crypto/rx/RxBasicStorage`, `RxDataset` and `RxCache`: the dataset of the last seed.

Each of the three decides on its own what is new: the storage compares the algorithm, and
applies its configuration; the cache compares the seed alone; the dataset is always computed.
So a cache survives a change of the algorithm that leaves the seed as it is, and the dataset
is then computed from a cache of another configuration.
-/

namespace XLArig

section

variable [RandomX]

/-! ## The cache -/

/-- `RxCache`; `content` is what `randomx_init_cache` made of the memory. -/
structure RxCache where
  seed : List UInt8
  allocated : Bool
  content : Option RandomX.Cache

/-- `RxCache::init`. -/
def RxCache.init (applied : Option Configuration) (c : RxCache) (seed : List UInt8) : RxCache :=
  if c.seed = seed then c
  else { c with
    seed
    content := if c.allocated then some (RandomX.initCache applied seed) else c.content }

/-! ## The dataset -/

/-- `RxDataset`; without memory of its own the cache alone is used. -/
structure RxDataset where
  cache : RxCache
  allocated : Bool
  content : Option RandomX.Dataset

/-- What the system answers when memory is asked for: whether it has as much as a dataset
needs, and whether it gives it to the dataset and to the cache. -/
structure Allocation where
  enough : Bool
  dataset : Bool
  cache : Bool

namespace RxDataset

/-- `RxDataset(hugePages, oneGbPages, true, mode, 0)`. -/
def create (mode : RxMode) (a : Allocation) : RxDataset where
  cache := ⟨[], a.cache, none⟩
  allocated := mode ≠ .LightMode && !(mode = .AutoMode && !a.enough) && a.dataset
  content := none

/-- `RxDataset::init`, and whether it succeeds. -/
def init (applied : Option Configuration) (d : RxDataset) (seed : List UInt8) : RxDataset × Bool :=
  if !d.cache.allocated then (d, false)
  else
    let d := { d with cache := d.cache.init applied seed }
    if !d.allocated then (d, true)
    else ({ d with content := d.cache.content.map (RandomX.initDataset applied) }, true)

/-- The cache, and the dataset if there is one, are those of `seed`. -/
def Holds (d : RxDataset) (seed : RxSeed) : Prop :=
  let config := some seed.algorithm.base
  d.cache.content = some (RandomX.initCache config seed.data) ∧
    (d.allocated = true →
      d.content = some (RandomX.initDataset config (RandomX.initCache config seed.data)))

variable {d : RxDataset} {applied : Option Configuration} {seed : RxSeed}

theorem cache_init (data : List UInt8) (halloc : d.cache.allocated = true) :
    (d.init applied data).1.cache = d.cache.init applied data ∧ (d.init applied data).2 = true := by
  unfold init
  dsimp only
  rw [halloc, Bool.not_true, if_neg Bool.false_ne_true]
  split <;> exact ⟨rfl, rfl⟩

/-- The dataset is right if its cache is refilled, or has the right content. -/
theorem holds_init (happlied : applied = some seed.algorithm.base)
    (halloc : d.cache.allocated = true)
    (hcache : d.cache.seed = seed.data →
      d.cache.content = some (RandomX.initCache applied seed.data)) :
    (d.init applied seed.data).1.Holds seed := by
  have hcontent : (d.cache.init applied seed.data).content =
      some (RandomX.initCache applied seed.data) := by
    unfold RxCache.init
    split
    · next hsame => exact hcache hsame
    · rfl
  unfold Holds
  dsimp only
  rw [(cache_init _ halloc).1, ← happlied]
  refine ⟨hcontent, ?_⟩
  unfold init
  dsimp only
  rw [halloc, Bool.not_true, if_neg Bool.false_ne_true]
  cases hfast : d.allocated with
  | false => simp
  | true => simp [hcontent]

end RxDataset

theorem RxCache.init_keeps (applied : Option Configuration) (c : RxCache) (seed : List UInt8) :
    (c.init applied seed).allocated = c.allocated ∧ (c.init applied seed).seed = seed := by
  unfold init
  split
  · next hsame => exact ⟨rfl, hsame⟩
  · exact ⟨rfl, rfl⟩

/-! ## The storage -/

/-- `RxBasicStoragePrivate`, with `RandomX_CurrentConfig`, which only the storage sets. -/
structure RxBasicStorage where
  applied : Option Configuration
  ready : Bool
  allocation : Option RxDataset
  seed : RxSeed

namespace RxBasicStorage

def new : RxBasicStorage := ⟨none, false, none, .empty⟩

/-- `isAllocated`. -/
def isAllocated (s : RxBasicStorage) : Bool := s.allocation.any fun d => d.cache.allocated

/-- `dataset(job)`. -/
def dataset (s : RxBasicStorage) (job : Job) : Option RxDataset :=
  if s.ready && s.seed = .ofJob job then s.allocation else none

/-- `setSeed`. -/
def setSeed (s : RxBasicStorage) (seed : RxSeed) : RxBasicStorage :=
  { s with
    ready := false
    applied := if s.seed.algorithm ≠ seed.algorithm then some seed.algorithm.base else s.applied
    seed }

/-- `createDataset`, where there is none yet; it is deleted again if it has no cache. -/
def createDataset (s : RxBasicStorage) (mode : RxMode) (a : Allocation) : RxBasicStorage :=
  if s.allocation.isSome then s
  else
    let d := RxDataset.create mode a
    { s with allocation := if d.cache.allocated then some d else none }

/-- `initDataset`. -/
def initDataset (s : RxBasicStorage) : RxBasicStorage :=
  match s.allocation with
  | none => s
  | some d =>
      let x := d.init s.applied s.seed.data
      { s with
        allocation := some x.1
        ready := x.2 }

/-- `init`. -/
def init (s : RxBasicStorage) (seed : RxSeed) (mode : RxMode) (a : Allocation) : RxBasicStorage :=
  ((s.setSeed seed).createDataset mode a).initDataset

/-! ## The system -/

/-- A call of `init`; `Rx::init` only lets RandomX algorithms through. -/
structure Call where
  seed : RxSeed
  mode : RxMode
  allocation : Allocation

def machine [Features] : Machine RxBasicStorage Call where
  init s := s = new
  step s c :=
    if c.seed.algorithm.family = .RANDOM_X then some (s.init c.seed c.mode c.allocation) else none

/-- The cache is filled anew, or its configuration is that of the seed. -/
def Refills (s : RxBasicStorage) (c : Call) : Prop :=
  match s.allocation with
  | none => c.seed.data ≠ []
  | some d => d.cache.seed = c.seed.data → s.seed.algorithm.base = c.seed.algorithm.base

/-- What was applied, and what is in the cache, belong to the last seed. -/
structure Current (s : RxBasicStorage) : Prop where
  applied : s.seed.algorithm ≠ .INVALID → s.applied = some s.seed.algorithm.base
  allocated : ∀ d, s.allocation = some d → d.cache.allocated = true
  seed : ∀ d, s.allocation = some d → d.cache.seed = s.seed.data
  holds : ∀ d, s.allocation = some d → d.Holds s.seed

variable {s s' : RxBasicStorage} {c : Call} {d : RxDataset} {seed : RxSeed}

theorem current_new : new.Current := by
  constructor
  · intro h
    exact absurd rfl h
  · nofun
  · nofun
  · nofun

/-! ### One call -/

/-- A dataset that has its cache is initialised. -/
theorem ready_of_isAllocated (h : s.initDataset.isAllocated = true) : s.initDataset.ready = true := by
  unfold initDataset isAllocated at *
  cases hd : s.allocation with
  | none => simp [hd] at h
  | some d =>
      simp only [hd, Option.any_some] at h ⊢
      unfold RxDataset.init at *
      cases hcache : d.cache.allocated with
      | false => simp [hcache] at h
      | true =>
          simp only [Bool.not_true, Bool.false_eq_true, if_false]
          split <;> rfl

/-- The configuration of the seed is applied, now or before. -/
theorem applied_setSeed (hs : s.Current) (hseed : seed.algorithm ≠ .INVALID) :
    (s.setSeed seed).applied = some seed.algorithm.base := by
  unfold setSeed
  dsimp only
  split
  · rfl
  · next hsame =>
    rw [not_not] at hsame
    rw [hs.applied (hsame ▸ hseed), hsame]

/-- A call leaves the storage without a dataset, or with one that was initialised: the one
it had, or a new one. -/
theorem init_cases (s : RxBasicStorage) (c : Call) :
    (s.init c.seed c.mode c.allocation).seed = c.seed ∧
      (s.init c.seed c.mode c.allocation).applied = (s.setSeed c.seed).applied ∧
      ((s.init c.seed c.mode c.allocation).allocation = none ∧
          (s.init c.seed c.mode c.allocation).ready = false ∨
        ∃ d, (s.allocation = some d ∨
            s.allocation = none ∧ d = .create c.mode c.allocation ∧ d.cache.allocated = true) ∧
          (s.init c.seed c.mode c.allocation).allocation =
            some (d.init (s.setSeed c.seed).applied c.seed.data).1) := by
  unfold init initDataset createDataset
  cases h : s.allocation with
  | some d => exact ⟨by simp [setSeed, h], by simp [setSeed, h], .inr ⟨d, .inl rfl, by simp [setSeed, h]⟩⟩
  | none =>
      cases hcache : (RxDataset.create c.mode c.allocation).cache.allocated with
      | false => exact ⟨by simp [setSeed, h, hcache], by simp [setSeed, h, hcache],
          .inl (by simp [setSeed, h, hcache])⟩
      | true =>
          exact ⟨by simp [setSeed, h, hcache], by simp [setSeed, h, hcache],
            .inr ⟨_, .inr ⟨rfl, rfl, hcache⟩, by simp [setSeed, h, hcache]⟩⟩

theorem current_init [Features] (hs : s.Current) (hc : s.Refills c)
    (hrandomx : c.seed.algorithm.family = .RANDOM_X) :
    (s.init c.seed c.mode c.allocation).Current := by
  have hvalid : c.seed.algorithm ≠ .INVALID := by
    intro h
    rw [h] at hrandomx
    contradiction
  have happlied := applied_setSeed hs hvalid
  obtain ⟨hseed, happ, hnone | ⟨d, hd, hd'⟩⟩ := init_cases s c
  · constructor
    · intro _
      rw [happ, hseed, happlied]
    all_goals
      intro d hd
      rw [hnone.1] at hd
      contradiction
  · have halloc : d.cache.allocated = true := by
      obtain hold | ⟨-, -, hnew⟩ := hd
      · exact hs.allocated d hold
      · exact hnew
    have hcache : d.cache.seed = c.seed.data →
        d.cache.content = some (RandomX.initCache (s.setSeed c.seed).applied c.seed.data) := by
      intro hsame
      rw [happlied]
      unfold Refills at hc
      obtain hold | ⟨hold, rfl, -⟩ := hd
      · rw [hold] at hc
        rw [← hc hsame, ← hsame, hs.seed d hold]
        exact (hs.holds d hold).1
      · rw [hold] at hc
        exact absurd hsame.symm hc
    have hcacheInit : (d.init (s.setSeed c.seed).applied c.seed.data).1.cache =
        d.cache.init (s.setSeed c.seed).applied c.seed.data :=
      (RxDataset.cache_init c.seed.data halloc).1
    constructor
    · intro _
      rw [happ, hseed, happlied]
    all_goals
      intro d' h
      rw [hd'] at h
      obtain rfl := Option.some.inj h
    · rw [hcacheInit, (RxCache.init_keeps _ _ _).1, halloc]
    · rw [hcacheInit, (RxCache.init_keeps _ _ _).2, hseed]
    · rw [hseed]
      exact RxDataset.holds_init happlied halloc hcache

/-! ### Runs -/

theorem step_eq [Features] (h : machine.step s c = some s') :
    c.seed.algorithm.family = .RANDOM_X ∧ s' = s.init c.seed c.mode c.allocation := by
  simp only [machine, Option.ite_none_right_eq_some, Option.some.injEq] at h
  exact ⟨h.1, h.2.symm⟩

theorem current_of_reachable [Features] (h : machine.ReachableIf Refills s) : s.Current := by
  refine h.invariant ?_ ?_
  · rintro s rfl
    exact current_new
  · intro s c s' hs hc hstep
    obtain ⟨hrandomx, rfl⟩ := step_eq hstep
    exact current_init hs hc hrandomx

/-- **The dataset belongs to the algorithm and the seed.**  As long as every call finds a
cache that it refills, or one of its own configuration, what is ready after a call was made
from its seed, and a job gets a dataset only if that was made from the seed of the job. -/
theorem dataset_current [Features] (h : machine.ReachableIf Refills s) (hc : s.Refills c)
    (hs : machine.step s c = some s') :
    (s'.ready = true → ∃ d, s'.allocation = some d ∧ d.Holds c.seed) ∧
      ∀ job d, s'.dataset job = some d → d.Holds (.ofJob job) := by
  obtain ⟨hrandomx, rfl⟩ := step_eq hs
  have hcurrent := current_init (current_of_reachable h) hc hrandomx
  obtain ⟨hseed, -, hcases⟩ := init_cases s c
  constructor
  · intro hready
    obtain ⟨-, hnot⟩ | ⟨d, -, hd⟩ := hcases
    · rw [hnot] at hready
      contradiction
    · have hholds := hcurrent.holds _ hd
      rw [hseed] at hholds
      exact ⟨_, hd, hholds⟩
  · intro job d hd
    unfold dataset at hd
    rw [Option.ite_none_right_eq_some, Bool.and_eq_true, decide_eq_true_eq] at hd
    exact hd.1.2 ▸ hcurrent.holds d hd.2

end RxBasicStorage

end

namespace RxBasicStorage

/-- A call with plenty of memory. -/
def sampleCall (algorithm : Algorithm) (byte : UInt8) : Call where
  seed := ⟨algorithm, List.replicate 32 byte⟩
  mode := .AutoMode
  allocation := ⟨true, true, true⟩

/-- The same algorithm with two seeds. -/
theorem dataset_current_sample : let c := sampleCall .RX_0 1
    ∃ s, machine.step new c = some s ∧ ∃ s', machine.step s (sampleCall .RX_0 2) = some s' ∧
      s'.ready = true ∧ ∃ d, s'.allocation = some d ∧ d.Holds (sampleCall .RX_0 2).seed := by
  intro c
  have hfirst : machine.ReachableIf Refills (new.init c.seed c.mode c.allocation) :=
    .step (e := c) (.init rfl) (show c.seed.data ≠ [] by decide) rfl
  have hrefills : (new.init c.seed c.mode c.allocation).Refills (sampleCall .RX_0 2) := by
    intro h
    rfl
  exact ⟨_, rfl, _, rfl, rfl, (dataset_current hfirst hrefills rfl).1 rfl⟩

/-- **The cache of another algorithm.**  When the seed stays and the algorithm changes, the
job is given a dataset that was computed from the cache of the algorithm before. -/
theorem keeps_cache :
    let seed := List.replicate 32 (1 : UInt8)
    let job := { Job.empty with
      algorithm := .RX_WOW
      seed }
    ∃ s d, machine.run new [sampleCall .RX_0 1, sampleCall .RX_WOW 1] = some s ∧
      s.ready = true ∧ s.dataset job = some d ∧
      d.cache.content = some (RandomX.initCache (some .Monero) seed) ∧
      ¬ d.Holds (.ofJob job) := by
  intro seed job
  have hother : RandomX.initCache (some .Monero) seed ≠ RandomX.initCache (some .Wownero) seed := by
    intro h
    exact absurd (congrArg Prod.fst h) (by decide)
  have hcontent : ∀ d : RxDataset, d.cache.content = some (RandomX.initCache (some .Monero) seed) →
      ¬ d.Holds (.ofJob job) := by
    rintro d hd ⟨hcache, -⟩
    rw [hd] at hcache
    exact hother (Option.some.inj hcache)
  exact ⟨_, _, rfl, rfl, rfl, rfl, hcontent _ rfl⟩

end RxBasicStorage

end XLArig
