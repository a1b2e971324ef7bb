import XLArig.Columns
import XLArig.CpuConfig.Reload
import XLArig.Sure

/-!
# XLArig.HwlocCpuInfo

`backend/cpu/platform/HwlocCpuInfo`: the threads that are planned for the processing units under
each cache of a topology.

The counters that the planner takes units from never go below zero, and its loop ends
(`processTopLevelCache_sure`).
-/

namespace XLArig

/-- `Algorithm::l2`. -/
def Algorithm.l2 [ft : Features] (a : Algorithm) : Nat :=
  if ft.randomx then
    match a with
    | RX_0 | RX_SFX => 0x40000
    | RX_WOW | RX_KEVA | RX_XLA => 0x20000
    | RX_ARQ => 0x10000
    | _ => 0
  else 0

namespace Hwloc

/-! ## Topologies -/

/-- `hwloc_obj_attr_u::cache`, and the info `Inclusive`. -/
structure CacheAttr where
  depth : Nat
  size : Nat
  associativity : Int
  inclusive : Bool

/-- `hwloc_obj_type_t`, as far as the planner asks for it. -/
inductive ObjType
  | PU
  | CORE
  | CACHE
  | OTHER
  deriving DecidableEq

/-- `hwloc_obj_t`; a processing unit has no children. -/
inductive Obj
  | pu (osIndex : Nat)
  | core (children : List Obj)
  | cache (attr : CacheAttr) (children : List Obj)
  | other (children : List Obj)

namespace Obj

def type : Obj → ObjType
  | pu _ => .PU
  | core _ => .CORE
  | cache _ _ => .CACHE
  | other _ => .OTHER

/-- `os_index`, of a processing unit. -/
def osIndex : Obj → Nat
  | pu i => i
  | _ => 0

/-- `attr`, of a cache. -/
def cacheAttr? : Obj → Option CacheAttr
  | cache attr _ => some attr
  | _ => none

mutual

/-- `findByType`: what is found is not searched. -/
def findByType (t : ObjType) : Obj → List Obj
  | pu _ => []
  | core children => findIn t children
  | cache _ children => findIn t children
  | other children => findIn t children

def findIn (t : ObjType) : List Obj → List Obj
  | [] => []
  | obj :: objs => (if obj.type = t then [obj] else findByType t obj) ++ findIn t objs

end

mutual

/-- `findCache`: what is under a cache of another depth is left out. -/
def findCache (min max : Nat) : Obj → List (CacheAttr × List Obj)
  | pu _ => []
  | core children => findCacheIn min max children
  | cache _ children => findCacheIn min max children
  | other children => findCacheIn min max children

def findCacheIn (min max : Nat) : List Obj → List (CacheAttr × List Obj)
  | [] => []
  | cache attr children :: objs =>
      (if attr.depth < min ∨ max < attr.depth then []
        else (attr, children) :: findCacheIn min max children) ++ findCacheIn min max objs
  | obj :: objs => findCache min max obj ++ findCacheIn min max objs

end

/-- The processing units under an object. -/
def units (obj : Obj) : List Nat := (obj.findByType .PU).map osIndex

/-- The processing units under a list of objects. -/
def unitsIn (objs : List Obj) : List Nat := (findIn .PU objs).map osIndex

/-- The processing units of each core under a list of objects. -/
def coresIn (objs : List Obj) : List (List Nat) := (findIn .CORE objs).map units

end Obj

end Hwloc

open Hwloc

namespace Hwloc.Obj

/-! ## What is under an object -/

theorem unitsIn_cons (obj : Obj) (objs : List Obj) :
    unitsIn (obj :: objs) =
      (if obj.type = .PU then [obj.osIndex] else obj.units) ++ unitsIn objs := by
  unfold unitsIn
  rw [findIn, List.map_append]
  split <;> rfl

theorem coresIn_cons (obj : Obj) (objs : List Obj) : coresIn (obj :: objs) =
    (if obj.type = .CORE then [obj.units] else (obj.findByType .CORE).map units) ++
      coresIn objs := by
  unfold coresIn
  rw [findIn, List.map_append]
  split <;> rfl

mutual

theorem cores_sublist : (obj : Obj) →
    ((obj.findByType .CORE).map units).flatten.Sublist obj.units
  | pu _ => .slnil
  | core children => coresIn_sublist children
  | cache _ children => coresIn_sublist children
  | other children => coresIn_sublist children

/-- The units of the cores are those of the list, each once at most. -/
theorem coresIn_sublist : (objs : List Obj) → (coresIn objs).flatten.Sublist (unitsIn objs)
  | [] => .slnil
  | obj :: objs => by
      rw [coresIn_cons, unitsIn_cons, List.flatten_append]
      refine List.Sublist.append ?_ (coresIn_sublist objs)
      have hobj := cores_sublist obj
      cases obj with
      | pu i => exact List.nil_sublist _
      | core children => simp [type]
      | cache attr children => exact hobj
      | other children => exact hobj

end

/-- No cache of the list is above another of the depth. -/
def NotNested (depth : Nat) (caches : List (CacheAttr × List Obj)) : Prop :=
  ∀ cache ∈ caches, findCacheIn depth depth cache.2 = []

section

variable {depth : Nat}

theorem NotNested.append {l l' : List (CacheAttr × List Obj)} (h : NotNested depth (l ++ l')) :
    NotNested depth l ∧ NotNested depth l' := List.forall_mem_append.mp h

mutual

theorem caches_sublist : (obj : Obj) → NotNested depth (findCache depth depth obj) →
    ((findCache depth depth obj).flatMap fun cache => unitsIn cache.2).Sublist obj.units
  | pu _, _ => .slnil
  | core children, h => cachesIn_sublist children h
  | cache _ children, h => cachesIn_sublist children h
  | other children, h => cachesIn_sublist children h

/-- The units under the caches are those of the list, each once at most. -/
theorem cachesIn_sublist : (objs : List Obj) → NotNested depth (findCacheIn depth depth objs) →
    ((findCacheIn depth depth objs).flatMap fun cache => unitsIn cache.2).Sublist (unitsIn objs)
  | [], _ => .slnil
  | pu i :: objs, h => (cachesIn_sublist objs h).cons i
  | core children :: objs, h => by
      have hobj := caches_sublist (core children) h.append.1
      have hcons : findCacheIn depth depth (core children :: objs) =
          findCache depth depth (core children) ++ findCacheIn depth depth objs := rfl
      rw [hcons, List.flatMap_append, unitsIn_cons]
      exact hobj.append (cachesIn_sublist objs h.append.2)
  | other children :: objs, h => by
      have hobj := caches_sublist (other children) h.append.1
      have hcons : findCacheIn depth depth (other children :: objs) =
          findCache depth depth (other children) ++ findCacheIn depth depth objs := rfl
      rw [hcons, List.flatMap_append, unitsIn_cons]
      exact hobj.append (cachesIn_sublist objs h.append.2)
  | cache attr children :: objs, h => by
      rw [findCacheIn] at h ⊢
      rw [List.flatMap_append, unitsIn_cons]
      refine List.Sublist.append ?_ (cachesIn_sublist objs h.append.2)
      split
      · exact List.nil_sublist _
      · next hdepth =>
        -- there are no more of them under this one
        rw [if_neg hdepth] at h
        have hnone : findCacheIn depth depth children = [] :=
          h.append.1 (attr, children) List.mem_cons_self
        rw [hnone, List.flatMap_singleton]
        exact .refl _

end

end

end Hwloc.Obj

/-- What the planner does not expect: a division by zero, a counter below zero, a loop that goes
on. -/
inductive PlanFault
  | division
  | underflow
  | running
  deriving DecidableEq

/-- `HwlocCpuInfo`; `basic` is the class that it is derived from. -/
structure HwlocCpuInfo where
  root : Obj
  basic : Cpu.BasicCpuInfo

namespace HwlocCpuInfo

/-! ## Passes -/

/-- A counter that is counted down. -/
def countDown (n : Nat) : Except PlanFault Nat := if n = 0 then .error .underflow else .ok (n - 1)

/-- One pass over the cores: the counters, and the units that are added. -/
def pass (puId : Nat) : List (List Nat) → Nat → Nat → Except PlanFault (Nat × Nat × List Nat)
  | [], hashes, PUs => .ok (hashes, PUs, [])
  | units :: cores, hashes, PUs =>
      match units[puId]? with
      | none => pass puId cores hashes PUs
      | some pu => do
          let hashes ← countDown hashes
          let PUs ← countDown PUs
          if hashes = 0 then .ok (hashes, PUs, [pu])
          else do
            let x ← pass puId cores hashes PUs
            .ok (x.1, x.2.1, pu :: x.2.2)

/-- The loop over the passes, for `fuel` of them. -/
def passes : Nat → Nat → List (List Nat) → Nat → Nat → Except PlanFault (List Nat)
  | fuel, puId, cores, hashes, PUs =>
      if 0 < hashes ∧ 0 < PUs then
        match fuel with
        | 0 => .error .running
        | fuel + 1 => do
            let x ← pass puId cores hashes PUs
            let added := if puId % 2 = 1 then x.2.2.reverse else x.2.2
            if x.2.2 = [] then .ok added
            else do
              let rest ← passes fuel (puId + 1) cores.reverse x.1 x.2.1
              .ok (added ++ rest)
      else .ok []

section

variable {cores : List (List Nat)} {puId hashes PUs fuel : Nat}

theorem countDown_pos {n : Nat} (h : 0 < n) : countDown n = .ok (n - 1) := if_neg (by omega)

/-- A pass takes what it may of a column, while there are units for it. -/
theorem pass_eq (hhashes : 0 < hashes) (hPUs : (column puId cores).length ≤ PUs) :
    pass puId cores hashes PUs = .ok (hashes - min hashes (column puId cores).length,
      PUs - min hashes (column puId cores).length, (column puId cores).take hashes) := by
  induction cores generalizing hashes PUs with
  | nil => simp [pass, column]
  | cons units cores ih =>
      rw [pass]
      cases hget : units[puId]? with
      | none =>
          have hcolumn : column puId (units :: cores) = column puId cores := by
            simp [column, hget]
          rw [hcolumn] at hPUs ⊢
          exact ih hhashes hPUs
      | some pu =>
          have hcolumn : column puId (units :: cores) = pu :: column puId cores := by
            simp [column, hget]
          rw [hcolumn, List.length_cons] at hPUs ⊢
          rw [countDown_pos hhashes, countDown_pos (by omega)]
          rcases Nat.eq_or_lt_of_le hhashes with hone | hmore
          · subst hone
            simp [bind, Except.bind]
          · have hrest : pass puId cores (hashes - 1) (PUs - 1) =
                .ok (hashes - 1 - min (hashes - 1) (column puId cores).length,
                  PUs - 1 - min (hashes - 1) (column puId cores).length,
                  (column puId cores).take (hashes - 1)) := ih (by omega) (by omega)
            have htake : (pu :: column puId cores).take hashes =
                pu :: (column puId cores).take (hashes - 1) := by
              rw [List.take_cons (by omega)]
            have hne : ¬ hashes - 1 = 0 := by omega
            have hmin : min hashes ((column puId cores).length + 1) =
                min (hashes - 1) (column puId cores).length + 1 := by omega
            simp only [bind, Except.bind, if_neg hne, hrest, htake, hmin]
            simp only [Except.ok.injEq, Prod.mk.injEq, and_true]
            omega

theorem passes_done (h : ¬ (0 < hashes ∧ 0 < PUs)) :
    passes fuel puId cores hashes PUs = .ok [] := by
  cases fuel <;> exact if_neg h

/-- No counter goes below zero, as many passes as there are units are enough, and the units are
dealt in columns. -/
theorem passes_sure (hfuel : PUs ≤ fuel) (hPUs : (columnsFrom puId cores).length ≤ PUs) :
    (passes fuel puId cores hashes PUs).Sure fun added =>
      Dealt cores puId added ∧ added.length ≤ hashes := by
  induction fuel generalizing puId cores hashes PUs with
  | zero =>
      rw [passes_done (by omega)]
      exact ⟨.last List.nil_subperm, Nat.zero_le _⟩
  | succ fuel ih =>
      by_cases hloop : 0 < hashes ∧ 0 < PUs
      · have hlength := length_columns puId cores
        have hpass := pass_eq hloop.1 (show (column puId cores).length ≤ PUs by omega)
        have hperm : ∀ l : List Nat, (if puId % 2 = 1 then l.reverse else l).Perm l := by
          intro l
          split
          · exact l.reverse_perm
          · exact .refl l
        rw [passes, if_pos hloop]
        dsimp only
        rw [hpass]
        refine (Except.sure_ok.mpr rfl).bind ?_
        rintro _ rfl
        dsimp only
        have hadded := hperm ((column puId cores).take hashes)
        refine Except.sure_ite (fun hnone => ?_) fun hsome => ?_
        · rw [hnone] at hadded ⊢
          rw [hadded.eq_nil]
          exact ⟨.last List.nil_subperm, Nat.zero_le _⟩
        · have hpos : 0 < (column puId cores).length := by
            rw [List.length_pos_iff]
            rintro hnil
            simp [hnil] at hsome
          by_cases hall : (column puId cores).length < hashes
          · -- the whole column is added
            rw [List.take_of_length_le hall.le] at hadded ⊢
            have hrev : (columnsFrom (puId + 1) cores.reverse).length =
                (columnsFrom (puId + 1) cores).length :=
              (columnsFrom_perm cores.reverse_perm).length_eq
            have hrest : (passes fuel (puId + 1) cores.reverse
                (hashes - min hashes (column puId cores).length)
                (PUs - min hashes (column puId cores).length)).Sure fun added =>
                  Dealt cores.reverse (puId + 1) added ∧
                    added.length ≤ hashes - min hashes (column puId cores).length :=
              ih (by omega) (by omega)
            refine hrest.bind fun rest hdealt => ?_
            refine ⟨.round hadded (hdealt.1.of_perm cores.reverse_perm), ?_⟩
            rw [List.length_append, hadded.length_eq]
            omega
          · -- the pass ends within the column, and the loop with it
            rw [passes_done (by omega)]
            have hpart := hadded.subperm.trans (List.take_sublist hashes _).subperm
            refine (Except.sure_ok.mpr rfl).bind ?_
            rintro _ rfl
            rw [List.append_nil]
            refine ⟨.last hpart, ?_⟩
            rw [hadded.length_eq]
            exact List.length_take_le ..
      · rw [passes_done hloop]
        exact ⟨.last List.nil_subperm, Nat.zero_le _⟩

end

/-! ## One cache -/

variable [ft : Features]

section

variable (attr : CacheAttr) (children : List Obj) (a : Algorithm)

def oneMiB : Nat := 1024 * 1024

/-- The caches right under one of depth 3. -/
def l2s : List CacheAttr := if attr.depth = 3 then children.filterMap Obj.cacheAttr? else []

def sumL2 : Nat := ((l2s attr children).map CacheAttr.size).sum % 2 ^ 64

/-- `extra`, as it is summed up. -/
def extraL2 : Nat :=
  ((l2s attr children).filter fun l2 => !attr.inclusive && decide (a.l3 ≤ l2.size)).length * a.l3 %
    2 ^ 64

/-- Whether the second level counts in place of the third. -/
def countsL2 : Bool :=
  a.l3 = 2 * oneMiB ∧ sumL2 attr children ≠ 0 ∧
    (Obj.coresIn children).length * oneMiB % 2 ^ 64 = sumL2 attr children ∧
    ((l2s attr children).getLast?.map CacheAttr.associativity).getD 0 = 16 ∧
    sumL2 attr children ≤ attr.size

def extra : Nat :=
  if countsL2 attr children a then sumL2 attr children else extraL2 attr children a

/-- How many scratchpads fit into the cache. -/
def fitting : Nat :=
  let L3 := if countsL2 attr children a then sumL2 attr children else attr.size
  ((L3 + extra attr children a) % 2 ^ 64 + a.l3 / 2) % 2 ^ 64 / a.l3

/-- `cacheHashes`; no limit is zero. -/
def cacheHashes (limit : Nat) : Nat :=
  let cores := (Obj.coresIn children).length
  let hashes :=
    if ft.randomx then
      if a = .RX_XLA then cores
      else if extra attr children a = 0 ∧ 0 < a.l2 then
        min (max (sumL2 attr children / a.l2) cores) (fitting attr children a)
      else fitting attr children a
    else fitting attr children a
  if 0 < limit then min hashes limit else hashes

def intensity : UInt32 :=
  if a.maxIntensity = 1 then 0
  else if ft.cnPico ∧ a = .CN_PICO_0 ∧
    2 ≤ fitting attr children a / (Obj.unitsIn children).length then 2
  else 1

end

/-- `processTopLevelCache`: the threads that are added. -/
def processTopLevelCache (attr : CacheAttr) (children : List Obj) (a : Algorithm) (limit : Nat) :
    Except PlanFault (List CpuThread) :=
  let PUs := (Obj.unitsIn children).length
  let cores := Obj.coresIn children
  let thread : Nat → CpuThread := fun i => ⟨i, intensity attr children a⟩
  if PUs = 0 then .ok []
  else if a.l3 = 0 then .error .division
  else if PUs ≤ cacheHashes attr children a limit then .ok (cores.flatten.map thread)
  else (passes PUs 0 cores (cacheHashes attr children a limit) PUs).map (·.map thread)

/-- What a cache is given: no unit twice, no more than it has room for and than its share, and
the units of its cores in turn, unless there is room for all. -/
structure CachePlan (attr : CacheAttr) (children : List Obj) (a : Algorithm) (limit : Nat)
    (units : List Nat) : Prop where
  once : units.Subperm (Obj.unitsIn children)
  fits : units.length ≤ cacheHashes attr children a limit
  share : 0 < limit → units.length ≤ limit
  even : ∀ core ∈ Obj.coresIn children, ∀ core' ∈ Obj.coresIn children, ∀ k i j,
    core[k + 1]? = some i → core'[k]? = some j → i ∈ units → j ∈ units
  inTurn : cacheHashes attr children a limit < (Obj.unitsIn children).length →
    ∀ core ∈ Obj.coresIn children, ∀ core' ∈ Obj.coresIn children, ∀ k i j,
    core[k + 1]? = some i → core'[k]? = some j →
    ∀ first rest, units = first ++ i :: rest → j ∈ first

section

variable {attr : CacheAttr} {children : List Obj} {a : Algorithm} {limit : Nat}

theorem cacheHashes_le (h : 0 < limit) : cacheHashes attr children a limit ≤ limit := by
  unfold cacheHashes
  rw [if_pos h]
  exact Nat.min_le_right ..

/-- No counter goes below zero and the loop ends. -/
theorem processTopLevelCache_sure (ha : 0 < a.l3) (hunits : (Obj.unitsIn children).Nodup)
    (limit : Nat) : (processTopLevelCache attr children a limit).Sure fun added =>
      ∃ units : List Nat, added = units.map (fun i => ⟨i, intensity attr children a⟩) ∧
        CachePlan attr children a limit units := by
  have hsublist := Obj.coresIn_sublist children
  have hcores : (Obj.coresIn children).flatten.Nodup := hunits.sublist hsublist
  unfold processTopLevelCache
  dsimp only
  refine Except.sure_ite (fun hnone => ?_) fun hsome => ?_
  · refine ⟨[], rfl, List.nil_subperm, Nat.zero_le _, fun _ => Nat.zero_le _, ?_, ?_⟩
    · exact fun _ _ _ _ _ _ _ _ _ h => absurd h List.not_mem_nil
    · rw [hnone]
      exact fun h => absurd h (Nat.not_lt_zero _)
  · rw [if_neg ha.ne']
    refine Except.sure_ite (fun hall => ?_) fun hroom => ?_
    · have hfits := hsublist.length_le.trans hall
      refine ⟨_, rfl, hsublist.subperm, hfits, fun h => hfits.trans (cacheHashes_le h), ?_, ?_⟩
      · intro core _ core' hcore' k i j _ hj _
        exact List.mem_flatten_of_mem hcore' (List.mem_of_getElem? hj)
      · exact fun h => absurd hall (by omega)
    · have hlength : (columnsFrom 0 (Obj.coresIn children)).length ≤
          (Obj.unitsIn children).length := by
        rw [columnsFrom_zero]
        exact hsublist.length_le
      have hpasses : (passes (Obj.unitsIn children).length 0 (Obj.coresIn children)
          (cacheHashes attr children a limit) (Obj.unitsIn children).length).Sure fun added =>
            Dealt (Obj.coresIn children) 0 added ∧
              added.length ≤ cacheHashes attr children a limit := passes_sure le_rfl hlength
      obtain ⟨units, hunits, hdealt, hfits⟩ := Except.sure_iff.mp hpasses
      have honce := hdealt.subperm
      rw [columnsFrom_zero] at honce
      have hbefore : ∀ core ∈ Obj.coresIn children, ∀ core' ∈ Obj.coresIn children, ∀ k i j,
          core[k + 1]? = some i → core'[k]? = some j →
          ∀ first rest, units = first ++ i :: rest → j ∈ first :=
        fun core hcore core' hcore' k i j hi hj first rest hunits =>
          hdealt.before hcores hunits hcore hi hcore' hj (Nat.zero_le k)
      rw [hunits]
      refine ⟨units, rfl, honce.trans hsublist.subperm, hfits,
        fun h => hfits.trans (cacheHashes_le h), ?_, fun _ => hbefore⟩
      intro core hcore core' hcore' k i j hi hj hmem
      obtain ⟨first, rest, hsplit⟩ := List.append_of_mem hmem
      rw [hsplit]
      exact List.mem_append_left _ (hbefore core hcore core' hcore' k i j hi hj first rest hsplit)

end

/-! ## All caches -/

/-- The loop over the caches, without a limit. -/
def planAll (a : Algorithm) : List (CacheAttr × List Obj) → Except PlanFault (List CpuThread)
  | [] => .ok []
  | cache :: caches => do
      let added ← processTopLevelCache cache.1 cache.2 a 0
      let rest ← planAll a caches
      .ok (added ++ rest)

/-- The loop over the caches, of which each has a share of the remaining threads. -/
def planShares (a : Algorithm) (share : Nat) :
    List (CacheAttr × List Obj) → Int → Except PlanFault (List CpuThread)
  | [], _ => .ok []
  | cache :: caches, remaining => do
      let added ← processTopLevelCache cache.1 cache.2 a (min (share : Int) remaining).toNat
      if remaining - share ≤ 0 then .ok added
      else do
        let rest ← planShares a share caches (remaining - share)
        .ok (added ++ rest)

variable (info : HwlocCpuInfo)

omit ft in
/-- `m_cache[depth]`. -/
def cacheSize (depth : Nat) : Nat :=
  (((info.root.findCache 2 3).filter fun cache => cache.1.depth = depth).map
    fun cache => cache.1.size).sum % 2 ^ 64

omit ft in
/-- The depth of the caches that are used. -/
def depth : Nat := if 0 < info.cacheSize 3 then 3 else 2

omit ft in
def caches : List (CacheAttr × List Obj) := info.root.findCache info.depth info.depth

/-- What the caches are given, with the total and the share that a limit leaves. -/
def plan (a : Algorithm) (limit : UInt32) (total share : Nat) :
    Except PlanFault (List CpuThread) :=
  if 0 < limit ∧ limit < 100 ∧ info.caches ≠ [] then
    planShares a share info.caches (max total 1 : Nat)
  else planAll a info.caches

/-- `allThreads`. -/
def allThreads (a : Algorithm) (limit : UInt32) : List CpuThread :=
  if info.root.units = [] then info.basic.threads a limit
  else info.root.units.map fun (i : Nat) => (⟨i, 0⟩ : CpuThread)

/-- `threads`; the total and the share are products of floats. -/
def threads (a : Algorithm) (limit : UInt32) (total share : Nat) :
    Except PlanFault (List CpuThread) :=
  if ft.astrobwt ∧ a = .ASTROBWT_DERO then .ok (info.allThreads a limit)
  else if info.cacheSize 2 = 0 ∧ info.cacheSize 3 = 0 then .ok (info.basic.threads a limit)
  else do
    let plan ← info.plan a limit total share
    .ok (if plan = [] then info.basic.threads a limit else plan)

section

variable {a : Algorithm} {caches : List (CacheAttr × List Obj)}

/-- The threads are bound to units of the list, to each once at most. -/
def Binds (units : List Nat) (plan : List CpuThread) : Prop :=
  ∃ us : List Nat, plan.map CpuThread.affinity = us.map (fun (i : Nat) => (i : Int)) ∧
    us.Subperm units

omit ft in
theorem Binds.append {units units' : List Nat} {plan plan' : List CpuThread}
    (h : Binds units plan) (h' : Binds units' plan') : Binds (units ++ units') (plan ++ plan') := by
  obtain ⟨us, hplan, hus⟩ := h
  obtain ⟨us', hplan', hus'⟩ := h'
  exact ⟨us ++ us', by rw [List.map_append, List.map_append, hplan, hplan'], hus.append hus'⟩

omit ft in
theorem binds_nil (units : List Nat) : Binds units [] := ⟨[], rfl, List.nil_subperm⟩

/-- One cache, as the loops over all caches need it. -/
theorem binds_cache (ha : 0 < a.l3) {cache : CacheAttr × List Obj}
    (hunits : (Obj.unitsIn cache.2).Nodup) (limit : Nat) :
    (processTopLevelCache cache.1 cache.2 a limit).Sure fun added =>
      Binds (Obj.unitsIn cache.2) added ∧ (0 < limit → added.length ≤ limit) := by
  refine (processTopLevelCache_sure ha hunits limit).mono ?_
  rintro _ ⟨units, rfl, hplan⟩
  refine ⟨⟨units, by simp, hplan.once⟩, ?_⟩
  rw [List.length_map]
  exact hplan.share

theorem planAll_sure (ha : 0 < a.l3) (hunits : ∀ cache ∈ caches, (Obj.unitsIn cache.2).Nodup) :
    (planAll a caches).Sure (Binds (caches.flatMap fun cache => Obj.unitsIn cache.2)) := by
  induction caches with
  | nil => exact binds_nil _
  | cons cache caches ih =>
      obtain ⟨hcache, hcaches⟩ := List.forall_mem_cons.mp hunits
      refine (binds_cache ha hcache 0).bind fun added hadded => ?_
      refine (ih hcaches).bind fun rest hrest => ?_
      exact hadded.1.append hrest

/-- What remains is not exceeded. -/
theorem planShares_sure (ha : 0 < a.l3) {share : Nat} (hshare : 1 ≤ share) {remaining : Int}
    (hremaining : 0 < remaining) (hunits : ∀ cache ∈ caches, (Obj.unitsIn cache.2).Nodup) :
    (planShares a share caches remaining).Sure fun plan =>
      Binds (caches.flatMap fun cache => Obj.unitsIn cache.2) plan ∧ plan.length ≤ remaining := by
  induction caches generalizing remaining with
  | nil => exact ⟨binds_nil _, by simpa using hremaining.le⟩
  | cons cache caches ih =>
      obtain ⟨hcache, hcaches⟩ := List.forall_mem_cons.mp hunits
      refine (binds_cache ha hcache _).bind fun added hadded => ?_
      have hlength := hadded.2 (by omega)
      refine Except.sure_ite (fun _ => ?_) fun hmore => ?_
      · have hbinds := hadded.1.append (binds_nil (caches.flatMap fun cache => Obj.unitsIn cache.2))
        rw [List.append_nil] at hbinds
        exact ⟨hbinds, by omega⟩
      · refine (ih (by omega) hcaches).bind fun rest hrest => ?_
        refine ⟨hadded.1.append hrest.1, ?_⟩
        rw [List.length_append]
        have hlast := hrest.2
        omega

end

section

variable {info : HwlocCpuInfo} {a : Algorithm} {limit : UInt32} {total share : Nat}

omit ft in
theorem Binds.mono {units units' : List Nat} {plan : List CpuThread} (h : Binds units plan)
    (hunits : units.Sublist units') : Binds units' plan := by
  obtain ⟨us, hplan, hus⟩ := h
  exact ⟨us, hplan, hus.trans hunits.subperm⟩

omit ft in
theorem Binds.nodup {units : List Nat} {plan : List CpuThread} (h : Binds units plan)
    (hunits : units.Nodup) : (plan.map CpuThread.affinity).Nodup := by
  obtain ⟨us, hplan, hus⟩ := h
  obtain ⟨l, hl, hsublist⟩ := hus
  have hnodup : us.Nodup := hl.nodup_iff.mp (hunits.sublist hsublist)
  rw [hplan]
  exact hnodup.map fun _ _ h => Int.ofNat.inj h

omit ft in
theorem unitsIn_nodup (hcaches : Obj.NotNested info.depth info.caches)
    (hunits : info.root.units.Nodup) : ∀ cache ∈ info.caches, (Obj.unitsIn cache.2).Nodup := by
  intro cache hcache
  have hall := hunits.sublist (Obj.caches_sublist info.root hcaches)
  exact (List.nodup_flatMap.mp hall).1 cache hcache

/-- What the caches are given, with a limit or without one. -/
theorem plan_sure (ha : 0 < a.l3) (hshare : 1 ≤ share)
    (hcaches : Obj.NotNested info.depth info.caches) (hunits : info.root.units.Nodup) :
    (info.plan a limit total share).Sure fun plan =>
      Binds info.root.units plan ∧ (0 < limit → limit < 100 → plan.length ≤ max total 1) := by
  have hsublist := Obj.caches_sublist info.root hcaches
  have hnodup := unitsIn_nodup hcaches hunits
  refine Except.sure_ite (fun _ => ?_) fun hno => ?_
  · refine (planShares_sure ha hshare (by omega) hnodup).mono ?_
    rintro plan ⟨hbinds, hlength⟩
    exact ⟨hbinds.mono hsublist, fun _ _ => by omega⟩
  · refine (Except.sure_self (planAll_sure ha hnodup)).mono ?_
    rintro plan ⟨hplan, hbinds⟩
    refine ⟨hbinds.mono hsublist, fun h h' => ?_⟩
    have hnone : info.caches = [] := by
      by_contra hsome
      exact hno ⟨h, h', hsome⟩
    rw [hnone] at hplan
    obtain rfl : [] = plan := Except.ok.inj hplan
    exact Nat.zero_le _

/-- The planner, for a topology whose caches are not nested. -/
theorem planner_sure (ha : 0 < a.l3) (hshare : 1 ≤ share)
    (hcaches : Obj.NotNested info.depth info.caches) (hunits : info.root.units.Nodup) :
    (∀ cache ∈ info.caches, ∀ limit,
      (processTopLevelCache cache.1 cache.2 a limit).Sure fun added => ∃ units : List Nat,
        added = units.map (fun i => ⟨i, intensity cache.1 cache.2 a⟩) ∧
          CachePlan cache.1 cache.2 a limit units) ∧
      (info.plan a limit total share).Sure fun plan =>
        Binds info.root.units plan ∧ (plan.map CpuThread.affinity).Nodup ∧
          (0 < limit → limit < 100 → plan.length ≤ max total 1) ∧
          (¬ (ft.astrobwt ∧ a = .ASTROBWT_DERO) →
            ¬ (info.cacheSize 2 = 0 ∧ info.cacheSize 3 = 0) → plan ≠ [] →
            info.threads a limit total share = .ok plan) := by
  have hnodup := unitsIn_nodup hcaches hunits
  refine ⟨fun cache hcache => processTopLevelCache_sure ha (hnodup cache hcache),
    (Except.sure_self (plan_sure ha hshare hcaches hunits)).mono ?_⟩
  rintro plan ⟨hplan, hbinds, hlength⟩
  refine ⟨hbinds, hbinds.nodup hunits, hlength, fun hdero hL23 hsome => ?_⟩
  unfold threads
  rw [if_neg hdero, if_neg hL23, hplan]
  exact congrArg Except.ok (if_neg hsome)

end

end HwlocCpuInfo

/-- Two cores of two units under a cache of the third level. -/
def twoCores (size : Nat) : List Obj :=
  [.cache ⟨3, size, 16, true⟩ [.core [.pu 0, .pu 1], .core [.pu 2, .pu 3]]]

/-- A processor with four units, of which a limit of one percent leaves none. -/
def fourUnits (size : Nat) : HwlocCpuInfo := ⟨.other (twoCores size), ⟨4, fun _ => 0⟩⟩

theorem fourUnits_notNested {size : Nat} (h : 0 < size) (h' : size < 2 ^ 64) :
    Obj.NotNested (fourUnits size).depth (fourUnits size).caches := by
  have hsize : (fourUnits size).cacheSize 3 = size := Nat.mod_eq_of_lt h'
  have hdepth : (fourUnits size).depth = 3 := by
    unfold HwlocCpuInfo.depth
    rw [hsize, if_pos h]
  unfold HwlocCpuInfo.caches
  rw [hdepth]
  exact List.forall_mem_singleton.mpr rfl

theorem fourUnits_nodup (size : Nat) : (fourUnits size).root.units.Nodup :=
  (by decide : [0, 1, 2, 3].Nodup)

/-- A limit of fifty percent, for a cache with room for three. -/
theorem planner_fourUnits :
    ((fourUnits 6291456).plan .CN_0 50 2 2).Sure fun plan =>
      HwlocCpuInfo.Binds (fourUnits 6291456).root.units plan ∧
        (plan.map CpuThread.affinity).Nodup ∧ plan.length ≤ 2 :=
  ((@HwlocCpuInfo.planner_sure defaultFeatures (fourUnits 6291456) .CN_0 50 2 2 (by decide)
    (by decide) (fourUnits_notNested (by decide) (by decide)) (fourUnits_nodup _)).2).mono
      fun _ h => ⟨h.1, h.2.1, h.2.2.1 (by decide) (by decide)⟩

/-- A cache without room is given none, and `BasicCpuInfo` plans more than the limit leaves.  Where
there is room for all units, the second of a core comes before the first of the other. -/
theorem planner_beyond :
    (Obj.NotNested (fourUnits 524288).depth (fourUnits 524288).caches ∧
      (fourUnits 524288).root.units.Nodup ∧ ∃ plan : List CpuThread,
        (fourUnits 524288).threads .CN_0 1 0 1 = .ok plan ∧ max 0 1 < plan.length) ∧
      Obj.coresIn (twoCores 8388608) = [[0, 1], [2, 3]] ∧
      (fourUnits 8388608).plan .CN_0 0 0 1 = .ok [⟨0, 1⟩, ⟨1, 1⟩, ⟨2, 1⟩, ⟨3, 1⟩] := by
  refine ⟨⟨fourUnits_notNested (by decide) (by decide), fourUnits_nodup _, ?_⟩, rfl, rfl⟩
  exact ⟨[⟨-1, 1⟩, ⟨-1, 1⟩], rfl, by decide⟩

end XLArig
