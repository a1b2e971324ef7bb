import XLArig.OrdMap
import XLArig.RxStorage

/-!
# XLArig.RxNUMAStorage

`crypto/rx/RxNUMAStorage`: a dataset for each node of a NUMA system, one of which is computed
and copied to the others.

Nodes where nothing can be allocated are left out.  The first node of the set stands for them
when a worker asks, and it is given the cache where no dataset has one of its own, whether or not
it is among those that are left.
-/

namespace XLArig

/-- The order of nodes in `m_datasets`. -/
def nodeLt (a b : UInt32) : Bool := decide (a < b)

instance : IsTrans UInt32 fun a b => nodeLt a b = true :=
  ⟨fun a b c hab hbc => by
    simp only [nodeLt, decide_eq_true_eq] at *
    exact UInt32.lt_trans hab hbc⟩

theorem same_nodeLt {a b : UInt32} : OrdMap.same nodeLt a b = true ↔ a = b := by
  simp only [OrdMap.same, nodeLt, Bool.and_eq_true, Bool.not_eq_true', decide_eq_false_iff_not,
    UInt32.not_lt]
  exact ⟨fun h => UInt32.le_antisymm h.2 h.1, fun h => by simp [h]⟩

section

variable [RandomX]

/-! ## Datasets -/

/-- How the content of a dataset came there. -/
inductive Origin
  | computed
  | copied
  deriving DecidableEq

/-- `RxDataset` of a node.  It has memory, except in slow mode, and a cache of its own in memory
of 1 GB pages. -/
structure NUMADataset where
  memory : Bool
  oneGbPages : Bool
  cache : Option RxCache
  content : Option RandomX.Dataset
  origin : Option Origin

/-- `RxCache`, before it is initialised; `get` says whether it could be created. -/
def RxCache.create (get : Bool) : RxCache := ⟨[], get, none⟩

namespace NUMADataset

/-- `RxDataset(cache)`. -/
def ofCache (cache : RxCache) : NUMADataset := ⟨false, false, some cache, none, none⟩

def setCache (d : NUMADataset) (cache : RxCache) : NUMADataset := { d with cache := some cache }

/-- `cache()->get()`. -/
def ready (d : NUMADataset) : Bool := d.cache.any RxCache.allocated

/-- `RxDataset::init`, which fails where there is no cache; the caller does not look. -/
def init (applied : Option Configuration) (seed : List UInt8) (d : NUMADataset) : NUMADataset :=
  match d.cache with
  | none => d
  | some cache =>
      if !cache.allocated then d
      else
        let cache := cache.init applied seed
        let d := { d with cache := some cache }
        if !d.memory then d
        else
          { d with
            content := cache.content.map (RandomX.initDataset applied)
            origin := some .computed }

/-- `RxDataset::setRaw`. -/
def setRaw (raw : Option RandomX.Dataset) (d : NUMADataset) : NUMADataset :=
  if !d.memory then d
  else
    { d with
      content := raw
      origin := some .copied }

/-- The dataset was computed from its cache, which was filled for `seed`; without memory of its
own it is the cache alone. -/
def Filled (applied : Option Configuration) (seed : List UInt8) (d : NUMADataset) : Prop :=
  ∃ cache, d.cache = some cache ∧ cache.allocated = true ∧ cache.seed = seed ∧
    (d.memory = true → d.origin = some .computed ∧
      d.content = cache.content.map (RandomX.initDataset applied))

end NUMADataset

/-! ## The storage -/

/-- What a thread of `createDatasets` meets on its node: whether the thread can be bound to it,
and the memory it gets there, if any: of 1 GB pages or not.  In 1 GB pages there is room for a
cache, and `cache` says whether it can be created. -/
structure Attempt where
  node : UInt32
  bound : Bool
  memory : Option Bool
  cache : Bool

/-- What `allocate` makes of it. -/
def Attempt.dataset? (a : Attempt) : Option NUMADataset :=
  if !a.bound then none
  else a.memory.map fun oneGbPages =>
    { memory := true
      oneGbPages
      cache := if oneGbPages then some (.create a.cache) else none
      content := none
      origin := none }

/-- `RxNUMAStoragePrivate`, with `RandomX_CurrentConfig`; `RxQueue` makes one for a nodeset that
is not empty.  `m_cache` is null up to the call of `createDatasets` that allocates the storage,
and then belongs to a dataset. -/
structure RxNUMAStorage where
  applied : Option Configuration
  allocated : Bool
  ready : Bool
  seed : RxSeed
  datasets : OrdMap UInt32 NUMADataset nodeLt
  nodeset : List UInt32
  nonempty : nodeset ≠ []

namespace RxNUMAStorage

/-- `m_nodeset.front()`. -/
def front (s : RxNUMAStorage) : UInt32 := s.nodeset.head s.nonempty

/-- The key under which `dataset(nodeId)` looks. -/
def key (s : RxNUMAStorage) (nodeId : UInt32) : UInt32 :=
  if s.datasets.has nodeId then nodeId else s.front

/-- `dataset(nodeId)`; `none` is the exception that `at` throws. -/
def dataset (s : RxNUMAStorage) (nodeId : UInt32) : Option NUMADataset :=
  s.datasets.find? (s.key nodeId)

/-- `setSeed`. -/
def setSeed (s : RxNUMAStorage) (seed : RxSeed) : RxNUMAStorage :=
  { s with
    ready := false
    applied := if s.seed.algorithm ≠ seed.algorithm then some seed.algorithm.base else s.applied
    seed }

/-- `allocate`, with the map it adds to. -/
def allocate (datasets : OrdMap UInt32 NUMADataset nodeLt) (a : Attempt) :
    OrdMap UInt32 NUMADataset nodeLt :=
  match a.dataset? with
  | none => datasets
  | some d => datasets.insert a.node d

/-- `isCacheRequired`. -/
def isCacheRequired (s : RxNUMAStorage) : Bool :=
  s.datasets.isEmpty || !s.datasets.entries.any fun kv => kv.2.oneGbPages

/-- A call of `init`: what the threads meet, in the order in which they come to the map, and
whether the shared cache can be allocated. -/
structure Call where
  seed : RxSeed
  attempts : List Attempt
  cache : Bool

/-- The storage when the threads of `createDatasets` have come to their ends. -/
def arrived (s : RxNUMAStorage) (c : Call) : RxNUMAStorage :=
  { s with datasets := c.attempts.foldl allocate s.datasets }

/-- `createDatasets`, and whether it succeeds; `none` is an exception that nobody catches. -/
def createDatasets (s : RxNUMAStorage) (c : Call) : Option (RxNUMAStorage × Bool) :=
  let s := s.arrived c
  let m_cache := if s.isCacheRequired && c.cache then some (RxCache.create true) else none
  if s.isCacheRequired && m_cache.isNone then some (s, false)
  else
    match m_cache with
    | none => some ({ s with allocated := true }, true)
    | some cache =>
        if s.datasets.isEmpty then
          some ({ s with
            datasets := s.datasets.insert s.front (.ofCache cache)
            allocated := true }, true)
        else
          -- `dataset(m_nodeset.front())->setCache(m_cache)`
          match s.dataset s.front with
          | none => none
          | some d =>
              some ({ s with
                datasets := s.datasets.assign s.front (d.setCache cache)
                allocated := true }, true)

/-- The dataset that is computed: the last that has a cache. -/
def primary (s : RxNUMAStorage) : UInt32 :=
  s.datasets.entries.foldl (fun id kv => if kv.2.cache.isSome then kv.1 else id) 0

/-- `initDatasets`. -/
def initDatasets (s : RxNUMAStorage) : Option RxNUMAStorage :=
  let id := s.primary
  match s.dataset id with
  | none => none
  | some primary =>
      let primary := primary.init s.applied s.seed.data
      let datasets := s.datasets.assign (s.key id) primary
      let datasets :=
        if 1 < datasets.entries.length then
          datasets.mapVal fun n d => if n = id then d else d.setRaw primary.content
        else datasets
      some { s with
        datasets
        ready := true }

/-- `init`; `none` is the exception. -/
def init (s : RxNUMAStorage) (c : Call) : Option RxNUMAStorage :=
  let s := s.setSeed c.seed
  if s.allocated then s.initDatasets
  else
    match s.createDatasets c with
    | none => none
    | some (s, created) => if !created then some s else s.initDatasets

/-- `RxNUMAStorage(nodeset)`. -/
def new (nodeset : List UInt32) (nonempty : nodeset ≠ []) : RxNUMAStorage :=
  ⟨none, false, false, .empty, .empty, nodeset, nonempty⟩

/-- A call that the nodeset allows: there is a thread for each node. -/
def Call.For (c : Call) (s : RxNUMAStorage) : Prop :=
  (c.attempts.map Attempt.node).Perm s.nodeset

instance (c : Call) (s : RxNUMAStorage) : Decidable (c.For s) :=
  inferInstanceAs (Decidable (List.Perm _ _))

/-- The calls of `init`; there is none after an exception. -/
def machine : Machine RxNUMAStorage Call where
  init s := ∃ nodeset nonempty, s = new nodeset nonempty
  step s c := if c.For s then s.init c else none

/-! ## What is to be shown -/

/-- One dataset is filled, and the others are copies of it. -/
def Filled (s : RxNUMAStorage) : Prop :=
  ∃ n d, s.datasets.find? n = some d ∧ d.Filled s.applied s.seed.data ∧
    ∀ m e, s.datasets.find? m = some e → m ≠ n →
      e.origin = some .copied ∧ e.content = d.content

/-- No lookup throws. -/
def Defined (s : RxNUMAStorage) : Prop := ∀ n, (s.dataset n).isSome = true

/-- What a call should come to: it returns, and the storage is not allocated or as it should
be. -/
def Survived (s : RxNUMAStorage) (c : Call) : Prop :=
  ∃ s', s.init c = some s' ∧ (s'.allocated = false ∨ s'.Defined ∧ s'.Filled)

/-- The dataset that a node has once all threads are done: it had one before, or its thread is
bound and gets memory. -/
def kept (s : RxNUMAStorage) (c : Call) (n : UInt32) : Option NUMADataset :=
  if s.allocated then s.datasets.find? n
  else
    (s.datasets.find? n).or ((c.attempts.filter fun a => a.node = n).findSome? Attempt.dataset?)

end RxNUMAStorage

end

end XLArig
