import XLArig.CnHash
import XLArig.CpuConfig

/-!
# XLArig.CpuWorker.Kept

What `CpuWorker`'s constructor makes of the launch data, and what becomes of it when
`CpuBackend::setJob` keeps the threads that run.

`setJob` compares some of the launch data.  The setting `yield` and those of AstroBWT are not
among them, and nothing else is missed (`kept_iff`).
-/

namespace XLArig

variable [ft : Features]

/-! ## The constructor -/

/-- The members of `CpuWorker<lanes>` and `Worker` that come from the launch data; the block that
it asks for has `memory` bytes. -/
structure WorkerMembers where
  lanes : Nat
  affinity : Int
  node : UInt32
  priority : Int
  algorithm : Algorithm
  assembly : Assembly
  astrobwtAVX2 : Bool
  hwAES : Bool
  yield : Bool
  av : AlgoVariant
  astrobwtMaxSize : Int
  threads : Nat
  memory : Nat
  hugePages : Bool

/-- The constructor; `bind` is `VirtualMemory::bindToNUMANode`. -/
def WorkerMembers.new (bind : Int → UInt32) (lanes : Nat) (data : CpuLaunchData) :
    WorkerMembers where
  lanes
  affinity := data.affinity
  node := bind data.affinity
  priority := data.priority
  algorithm := data.algorithm
  assembly := data.assembly
  astrobwtAVX2 := data.astrobwtAVX2
  hwAES := data.hwAES
  yield := data.yield
  av := data.av
  astrobwtMaxSize := data.astrobwtMaxSize * 1000
  threads := data.threads
  memory := data.algorithm.l3 * lanes
  hugePages := data.hugePages

/-- `Workers<CpuLaunchData>::create`. -/
def Workers.create (bind : Int → UInt32) (data : CpuLaunchData) : Option WorkerMembers :=
  if 1 ≤ data.intensity ∧ data.intensity ≤ 5 then some (.new bind data.intensity data) else none

/-- What a worker reads of its members once it runs: of the algorithm no more than the size of
its scratchpad, and the settings of AstroBWT for a job of that family. -/
structure WorkerReads where
  lanes : Nat
  affinity : Int
  node : UInt32
  priority : Int
  assembly : Assembly
  hwAES : Bool
  yield : Bool
  av : AlgoVariant
  threads : Nat
  l3 : Nat
  memory : Nat
  hugePages : Bool
  astrobwt : Option (Int × Bool)

def WorkerMembers.reads (m : WorkerMembers) (a : Algorithm) : WorkerReads where
  lanes := m.lanes
  affinity := m.affinity
  node := m.node
  priority := m.priority
  assembly := m.assembly
  hwAES := m.hwAES
  yield := m.yield
  av := m.av
  threads := m.threads
  l3 := m.algorithm.l3
  memory := m.memory
  hugePages := m.hugePages
  astrobwt := if a.family = .ASTROBWT then some (m.astrobwtMaxSize, m.astrobwtAVX2) else none

namespace CpuLaunchData

/-- What the worker for the launch data reads while it mines a job for `a`. -/
def reads (bind : Int → UInt32) (a : Algorithm) (data : CpuLaunchData) : Option WorkerReads :=
  (Workers.create bind data).map (·.reads a)

/-! ## The comparison -/

variable {bind : Int → UInt32} {a : Algorithm} {d e : CpuLaunchData}
  {ds es : List CpuLaunchData}

theorem isEqual_iff : d.isEqual e = true ↔
    d.algorithm.l3 = e.algorithm.l3 ∧ d.assembly = e.assembly ∧ d.hugePages = e.hugePages ∧
      d.hwAES = e.hwAES ∧ d.intensity = e.intensity ∧ d.priority = e.priority ∧
      d.affinity = e.affinity := by
  simp only [isEqual, Bool.and_eq_true, beq_iff_eq, and_assoc]

theorem allEqual_iff : allEqual ds es = true ↔
    List.Forall₂ (fun d e : CpuLaunchData => d.isEqual e = true) ds es := by
  induction ds generalizing es with
  | nil => cases es <;> simp [allEqual]
  | cons d ds ih => cases es <;> simp [allEqual, ih]

omit ft in
theorem av_congr (hintensity : d.intensity = e.intensity) (haes : d.hwAES = e.hwAES) :
    d.av = e.av := by
  unfold av
  rw [hintensity, haes]

/-- What the comparison misses. -/
def SameRest (a : Algorithm) (d e : CpuLaunchData) : Prop :=
  d.yield = e.yield ∧ d.threads = e.threads ∧
    (a.family = .ASTROBWT →
      d.astrobwtMaxSize = e.astrobwtMaxSize ∧ d.astrobwtAVX2 = e.astrobwtAVX2)

/-- Launch data that are found equal make workers that read the same, just when the rest is the
same. -/
theorem reads_eq_iff (h : d.isEqual e = true) (hmin : 1 ≤ d.intensity) (hmax : d.intensity ≤ 5) :
    d.reads bind a = e.reads bind a ↔ SameRest a d e := by
  obtain ⟨hl3, hassembly, hpages, haes, hintensity, hpriority, haffinity⟩ := isEqual_iff.mp h
  have hav := av_congr hintensity haes
  have hd : Workers.create bind d = some (.new bind d.intensity d) := if_pos ⟨hmin, hmax⟩
  have he : Workers.create bind e = some (.new bind e.intensity e) :=
    if_pos ⟨hintensity ▸ hmin, hintensity ▸ hmax⟩
  have hsize : d.astrobwtMaxSize * 1000 = e.astrobwtMaxSize * 1000 ↔
      d.astrobwtMaxSize = e.astrobwtMaxSize := by omega
  unfold reads SameRest
  rw [hd, he]
  by_cases hfamily : a.family = .ASTROBWT
  · simp [WorkerMembers.reads, WorkerMembers.new, hl3, hassembly, hpages, haes, hintensity,
      hpriority, haffinity, hav, hfamily, hsize]
  · simp [WorkerMembers.reads, WorkerMembers.new, hl3, hassembly, hpages, haes, hintensity,
      hpriority, haffinity, hav, hfamily]

end CpuLaunchData

omit ft in
/-- Lists that are related entry by entry, where `f` is the same of two entries just when `p`
holds. -/
theorem map_eq_iff_of_forall₂ {α β γ : Type*} {R : α → β → Prop} {f : α → γ} {g : β → γ}
    {p : Prop} {l : List α} {l' : List β} (h : List.Forall₂ R l l') (hne : l ≠ [])
    (hiff : ∀ x ∈ l, ∀ y ∈ l', R x y → (f x = g y ↔ p)) : l.map f = l'.map g ↔ p := by
  induction h with
  | nil => exact absurd rfl hne
  | @cons x y l l' hxy hrest ih =>
      have hhead := hiff x List.mem_cons_self y List.mem_cons_self hxy
      rw [List.map_cons, List.map_cons, List.cons.injEq, hhead]
      cases hrest with
      | nil => simp
      | cons _ _ =>
          have htail := ih (List.cons_ne_nil _ _) fun x hx y hy =>
            hiff x (List.mem_cons_of_mem _ hx) y (List.mem_cons_of_mem _ hy)
          rw [htail, and_self]

/-! ## Two configurations -/

namespace Cpu.Config

variable {info : CpuInfo} {c c' : Config} {a a' : Algorithm} {bind : Int → UInt32}

theorem intensity_launchData (c : Config) (info : CpuInfo) (a : Algorithm) (thread : CpuThread)
    (n : Nat) :
    1 ≤ (c.launchData info a thread n).intensity ∧
      (c.launchData info a thread n).intensity ≤ 5 := by
  have hlanes : 1 ≤ thread.lanes.toNat := by
    unfold CpuThread.lanes
    split
    · decide
    · next hne =>
      rw [Nat.one_le_iff_ne_zero]
      exact fun h => hne (UInt32.toNat_inj.mp h)
  have hmax : a.maxIntensity = 1 ∨ a.maxIntensity = 5 := by
    unfold Algorithm.maxIntensity
    split
    · exact .inl rfl
    · exact .inr rfl
  show 1 ≤ min thread.lanes.toNat a.maxIntensity ∧ min thread.lanes.toNat a.maxIntensity ≤ 5
  omega

/-- The settings that the comparison misses, for jobs of `a`. -/
def SameRest (c c' : Config) (a : Algorithm) : Prop :=
  c.yield = c'.yield ∧
    (a.family = .ASTROBWT →
      c.astrobwtMaxSize = c'.astrobwtMaxSize ∧ c.astrobwtAVX2 = c'.astrobwtAVX2)

/-- The launch data of one configuration. -/
theorem mem_get {d : CpuLaunchData} (h : d ∈ c.get info a) :
    1 ≤ d.intensity ∧ d.intensity ≤ 5 ∧ d.yield = c.yield ∧
      d.astrobwtMaxSize = c.astrobwtMaxSize ∧ d.astrobwtAVX2 = c.astrobwtAVX2 ∧
      d.threads = (c.get info a).length := by
  obtain ⟨thread, -, rfl⟩ := List.mem_map.mp h
  obtain ⟨hmin, hmax⟩ := intensity_launchData c info a thread (c.threads.get a).count
  refine ⟨hmin, hmax, rfl, rfl, rfl, ?_⟩
  exact (List.length_map ..).symm

/-- Where `setJob` keeps the threads that run, they read what those of a restart would read, just
when `yield`, and for AstroBWT its settings, are what they were. -/
theorem kept_iff {b : CpuBackend} {job : Job} (hrun : b.threads = c.get info a)
    (hkept : b.upToDate (c'.forBackend info) job = true) :
    b.threads.map (CpuLaunchData.reads bind job.algorithm) =
        (c'.get info job.algorithm).map (CpuLaunchData.reads bind job.algorithm) ↔
      SameRest c c' job.algorithm := by
  unfold CpuBackend.upToDate at hkept
  rw [hrun, Bool.and_eq_true, Bool.not_eq_true', List.isEmpty_eq_false_iff] at hkept
  obtain ⟨hne, hequal⟩ := hkept
  have hall : List.Forall₂ (fun d e : CpuLaunchData => d.isEqual e = true) (c.get info a)
      (c'.get info job.algorithm) := CpuLaunchData.allEqual_iff.mp hequal
  rw [hrun]
  refine map_eq_iff_of_forall₂ hall hne fun d hd e he heq => ?_
  obtain ⟨hmin, hmax, hyield, hsize, havx2, hcount⟩ := mem_get hd
  obtain ⟨-, -, hyield', hsize', havx2', hcount'⟩ := mem_get he
  rw [CpuLaunchData.reads_eq_iff heq hmin hmax]
  have hthreads : d.threads = e.threads := by
    rw [hcount, hcount', hall.length_eq]
  unfold CpuLaunchData.SameRest SameRest
  rw [hyield, hyield', hsize, hsize', havx2, havx2']
  exact and_congr_right fun _ => and_iff_right hthreads

end Cpu.Config

end XLArig

namespace XLArig.Cpu.Config

/-! ### One thread -/

/-- One thread for every algorithm. -/
def oneThread (yield : Bool) : Config :=
  { Config.new with
    yield := yield
    threads := (Threads.empty.move (bytes "*") (.ofList [⟨-1, 1⟩])).2 }

def soleInfo : CpuInfo := ⟨true, 1, 0, fun _ _ => []⟩

/-- The threads of `cn/0` go on with `cn/1`. -/
theorem kept_cn :
    ((oneThread true).get soleInfo .CN_0).map (CpuLaunchData.reads (fun _ => 0) .CN_1) =
        ((oneThread true).get soleInfo .CN_1).map (CpuLaunchData.reads (fun _ => 0) .CN_1) ↔
      SameRest (oneThread true) (oneThread true) .CN_1 :=
  @kept_iff defaultFeatures soleInfo (oneThread true) (oneThread true) .CN_0 (fun _ => 0)
    ⟨.CN_0, none, (oneThread true).get soleInfo .CN_0⟩ { Job.empty with algorithm := .CN_1 } rfl
    (by decide +kernel)

/-- A reload that turns `yield` off keeps the threads, which go on yielding. -/
theorem yield_kept :
    ∃ b : CpuBackend, b.threads = (oneThread true).get soleInfo .CN_0 ∧
      b.upToDate ((oneThread false).forBackend soleInfo)
        { Job.empty with algorithm := .CN_0 } = true ∧
      b.threads.map (fun d => (d.reads (fun _ => 0) .CN_0).map WorkerReads.yield) =
        [some true] ∧
      ((oneThread false).get soleInfo .CN_0).map
        (fun d => (d.reads (fun _ => 0) .CN_0).map WorkerReads.yield) = [some false] := by
  refine ⟨⟨.CN_0, none, (oneThread true).get soleInfo .CN_0⟩, rfl, ?_, ?_, ?_⟩
  all_goals decide +kernel

end XLArig.Cpu.Config
