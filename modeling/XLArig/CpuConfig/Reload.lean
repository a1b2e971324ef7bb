import XLArig.CpuConfig.ReadBack

/-!
# XLArig.CpuConfig.Reload

Whether the configuration is the same once it was written and read again: nothing is
generated the second time, and nothing has to be saved (`rereads`).
-/

namespace XLArig

namespace Json

variable {l r : List (List UInt8 × Json)} {key : List UInt8} {value : Json}

/-- Members that stand first hide those of the same name after them. -/
theorem getValue_append (hnodup : (l.map Prod.fst).Nodup) (h : (key, value) ∈ l) :
    (object (l ++ r)).getValue key = value := by
  have hfound : (l.find? fun x => x.1 == key).isSome = true :=
    List.find?_isSome.mpr ⟨_, h, by simp⟩
  obtain ⟨x, hx⟩ := Option.isSome_iff_exists.mp hfound
  have hl := getValue_of_mem hnodup h
  simp only [getValue, findMember, List.find?_append, hx, Option.map_some, Option.getD_some,
    Option.some_or] at hl ⊢
  exact hl

end Json

namespace Cpu

namespace Config

/-! ## Values that are read again -/

section

variable {c d : Config} {info : CpuInfo} {value : Json}

/-- The settings are in the ranges of their readers. -/
structure InRange (c : Config) : Prop where
  hugePageSize : c.hugePageSize < kOneGbPageSizeKb
  memoryPool : -2 ^ 31 ≤ c.memoryPool ∧ c.memoryPool < 2 ^ 31
  priority : -1 ≤ c.priority ∧ c.priority ≤ 5
  astrobwtMaxSize : 400 ≤ c.astrobwtMaxSize ∧ c.astrobwtMaxSize ≤ 1200

theorem int?_int {n : Int} (h : -2 ^ 31 ≤ n ∧ n < 2 ^ 31) : (Json.int n).int? = some n := by
  unfold Json.int?
  dsimp only
  rw [if_pos h]

theorem int?_range {n : Int} (h : value.int? = some n) : -2 ^ 31 ≤ n ∧ n < 2 ^ 31 := by
  unfold Json.int? at h
  split at h
  · split at h
    · next hrange => exact Option.some.inj h ▸ hrange
    · contradiction
  · contradiction

theorem readHugePages_lt {n : Nat} (h : n < kOneGbPageSizeKb) :
    readHugePages n value < kOneGbPageSizeKb := by
  have hdefault : kDefaultHugePageSizeKb < kOneGbPageSizeKb := by decide
  have hzero : 0 < kOneGbPageSizeKb := by decide
  unfold readHugePages
  split
  · split <;> assumption
  · split
    · split <;> assumption
    · exact h

theorem readHugePages_int {n : Nat} {m : Int} {size : UInt32}
    (h : (Json.int m).uint? = some size) : readHugePages n (.int m) =
      if size.toNat < kOneGbPageSizeKb then size.toNat else kDefaultHugePageSizeKb := by
  simp only [readHugePages, h]

theorem readHugePages_toJSON (h : c.InRange) (n : Nat) :
    readHugePages n c.hugePagesToJSON = c.hugePageSize := by
  have hlt := h.hugePageSize
  unfold hugePagesToJSON isHugePages
  split
  · next hswitch =>
    unfold readHugePages
    obtain hzero | hdefault := hswitch
    · simp [hzero]
    · have hpos : 0 < kDefaultHugePageSizeKb := by decide
      simp [hdefault, hpos]
  · have hword : c.hugePageSize < 2 ^ 32 := by
      unfold kOneGbPageSizeKb at hlt
      omega
    have hsize : (UInt32.ofNat c.hugePageSize).toNat = c.hugePageSize := by
      rw [UInt32.toNat_ofNat', Nat.mod_eq_of_lt hword]
    rw [readHugePages_int (CpuThreads.uint?_int hword), hsize, if_pos hlt]

theorem readAesMode_toJSON : readAesMode c.aesToJSON = c.aes := by
  unfold aesToJSON
  cases c.aes <;> rfl

theorem readPriority_range (n : Int) : -1 ≤ readPriority n ∧ readPriority n ≤ 5 := by
  unfold readPriority
  split <;> omega

theorem readPriority_toJSON (h : c.InRange) :
    readPriority (c.priorityToJSON.int?.getD (-1)) = c.priority := by
  obtain ⟨hlow, hhigh⟩ := h.priority
  unfold priorityToJSON
  split
  · rw [int?_int ⟨by omega, by omega⟩, Option.getD_some, readPriority, if_pos ⟨hlow, hhigh⟩]
  · next hnone =>
    rw [not_not.mp hnone]
    rfl

theorem readMemoryPool_range {n : Int} (h : -2 ^ 31 ≤ n ∧ n < 2 ^ 31) :
    -2 ^ 31 ≤ readMemoryPool n value ∧ readMemoryPool n value < 2 ^ 31 := by
  unfold readMemoryPool
  split
  · split <;> omega
  · cases hint : value.int? with
    | none => exact h
    | some m => exact int?_range hint

/-- A pool of any negative size is written as a switch, and has the same size. -/
theorem memPoolSize_toJSON (h : c.InRange) {n : Int}
    (hd : d.memoryPool = readMemoryPool n c.memoryPoolToJSON) :
    d.memPoolSize info = c.memPoolSize info := by
  have hpool : d.memoryPool = if c.memoryPool < 0 then -1 else c.memoryPool := by
    rw [hd]
    unfold memoryPoolToJSON
    by_cases hneg : c.memoryPool < 0
    · have hsmall : c.memoryPool < 1 := by omega
      simp [hneg, hsmall, readMemoryPool]
    · by_cases hzero : c.memoryPool = 0
      · simp [hzero, readMemoryPool]
      · have hlarge : ¬ c.memoryPool < 1 := by omega
        simp [hneg, hlarge, readMemoryPool, int?_int h.memoryPool]
  unfold memPoolSize
  rw [hpool]
  by_cases hneg : c.memoryPool < 0 <;> simp [hneg]

end

variable [ft : Features]

/-! ## Settings -/

/-- The names of the settings. -/
def settingKeys (isEmpty argon2 astrobwt : Bool) : List (List UInt8) :=
  [bytes "enabled", bytes "huge-pages", bytes "huge-pages-jit", bytes "hw-aes", bytes "priority",
    bytes "memory-pool", bytes "yield"] ++
  (if isEmpty then [bytes "max-threads-hint"] else []) ++ [bytes "asm"] ++
  (if argon2 then [bytes "argon2-impl"] else []) ++
  (if astrobwt then [bytes "astrobwt-max-size", bytes "astrobwt-avx2"] else [])

variable {c : Config} {key : List UInt8} {value : Json} {info : CpuInfo}

theorem keys_settings :
    c.settings.map Prod.fst = settingKeys c.threads.isEmpty ft.argon2 ft.astrobwt := by
  unfold settings settingKeys
  simp only [List.map_append, apply_ite (List.map Prod.fst)]
  rfl

omit ft in
theorem nodup_settingKeys : ∀ a b c : Bool, (settingKeys a b c).Nodup := by
  decide +kernel

/-- No setting has the name of an algorithm. -/
theorem parse_settingKeys {a b c : Bool} (h : key ∈ settingKeys a b c) :
    Algorithm.parse (some (Json.cstr key)) = .INVALID := by
  have hnone : ∀ key ∈ settingKeys true true true,
      ∀ x ∈ @Algorithm.algorithmNames Algorithm.fullFeatures,
        x.isNamed (Json.cstr key) = false := by
    decide +kernel
  have hall : ∀ a b c : Bool, ∀ key ∈ settingKeys a b c, key ∈ settingKeys true true true := by
    decide +kernel
  have hkey := hall a b c key h
  have hfind : Algorithm.algorithmNames.find? (·.isNamed (Json.cstr key)) = none := by
    rw [List.find?_eq_none]
    intro x hx
    simpa using hnone key hkey x (Algorithm.algorithmNames_sublist.subset hx)
  unfold Algorithm.parse
  split
  · rfl
  · rfl
  · next name hname =>
    rw [Option.some.inj hname] at hfind
    rw [hfind]

/-- No setting is written as an array or as an object. -/
theorem settings_plain : ∀ x ∈ c.settings, (x.2.isArray || x.2.isObject) = false := by
  have hpages : (c.hugePagesToJSON.isArray || c.hugePagesToJSON.isObject) = false := by
    unfold hugePagesToJSON
    split <;> rfl
  have haes : (c.aesToJSON.isArray || c.aesToJSON.isObject) = false := by
    unfold aesToJSON
    split <;> rfl
  have hpriority : (c.priorityToJSON.isArray || c.priorityToJSON.isObject) = false := by
    unfold priorityToJSON
    split <;> rfl
  have hpool : (c.memoryPoolToJSON.isArray || c.memoryPoolToJSON.isObject) = false := by
    unfold memoryPoolToJSON
    split <;> rfl
  have hasm : (c.assembly.toJSON.isArray || c.assembly.toJSON.isObject) = false := by
    cases c.assembly <;> rfl
  have himpl : ((Json.ofCString c.argon2Impl).isArray ||
      (Json.ofCString c.argon2Impl).isObject) = false := by
    cases c.argon2Impl <;> rfl
  have hplain : ∀ b : Bool, ((Json.bool b).isArray || (Json.bool b).isObject) = false :=
    fun _ => rfl
  have hint : ∀ n : Int, ((Json.int n).isArray || (Json.int n).isObject) = false := fun _ => rfl
  unfold settings
  simp only [List.forall_mem_append, List.forall_mem_cons]
  refine ⟨⟨⟨⟨?_, ?_⟩, hasm, by simp⟩, ?_⟩, ?_⟩
  · exact ⟨hplain _, hpages, hplain _, haes, hpriority, hpool, hplain _, by simp⟩
  · split
    · exact List.forall_mem_singleton.mpr (hint _)
    · exact List.forall_mem_nil _
  · split
    · exact List.forall_mem_singleton.mpr himpl
    · exact List.forall_mem_nil _
  · split
    · exact List.forall_mem_cons.mpr ⟨hint _, List.forall_mem_singleton.mpr (hplain _)⟩
    · exact List.forall_mem_nil _

theorem skipped_settings : ∀ x ∈ c.settings, Threads.Skipped x := by
  intro x hx
  have hkey : x.1 ∈ settingKeys c.threads.isEmpty ft.argon2 ft.astrobwt :=
    keys_settings (c := c) ▸ List.mem_map_of_mem hx
  exact ⟨settings_plain x hx, by simp [parse_settingKeys hkey, Algorithm.isValid]⟩

theorem getValue_toJSON (h : (key, value) ∈ c.settings) : c.toJSON.getValue key = value :=
  Json.getValue_append (keys_settings (c := c) ▸ nodup_settingKeys _ _ _) h

theorem getBool_toJSON {b : Bool} (h : (key, .bool b) ∈ c.settings) (defaultValue : Bool) :
    c.toJSON.getBool key defaultValue = b := by
  rw [Json.getBool, getValue_toJSON h]

/-! ## What is read -/

/-- What holds of settings that were read: nothing more would be generated. -/
structure Settled (c : Config) : Prop where
  inRange : c.InRange
  astrobwt : ft.astrobwt = false → c.astrobwtMaxSize = 550 ∧ c.astrobwtAVX2 = false
  sound : Sound c.threads
  done : c.enabled = true → c.threads.has (bytes "*") = false →
    ∀ info limit, ∀ g ∈ Generator.all info limit, g.isDone c.threads = true

theorem settled_generate (hplans : info.Plans) (hrange : c.InRange)
    (hastrobwt : ft.astrobwt = false → c.astrobwtMaxSize = 550 ∧ c.astrobwtAVX2 = false)
    (hsound : Sound c.threads) : Settled (c.generate info) := by
  unfold generate
  split
  · next hskip =>
    refine ⟨hrange, hastrobwt, hsound, fun henabled hstar => ?_⟩
    simp [henabled, hstar] at hskip
  · have hgood := Generator.all_good c.limit hplans
    refine ⟨⟨hrange.hugePageSize, hrange.memoryPool, hrange.priority, hrange.astrobwtMaxSize⟩,
      hastrobwt, Generator.runAll_sound hgood hsound, fun _ _ info' limit' g hg => ?_⟩
    -- the same generator, for the threads and the limit that were used
    have hmem : g.isDone ∈ (Generator.all info c.limit).map Generator.isDone :=
      Generator.map_isDone info' limit' ▸ List.mem_map_of_mem hg
    obtain ⟨g', hg', heq⟩ := List.mem_map.mp hmem
    rw [← heq]
    exact Generator.runAll_done hgood g' hg'

/-- The size that AstroBWT may use. -/
def maxSizeOf (value : Json) (maxSize : Int) : Int :=
  ((value.getValue (bytes "astrobwt-max-size")).int?.map fun n => min (max n 400) 1200).getD maxSize

/-- Whether there are both settings of AstroBWT. -/
def hasAstroBWT (value : Json) : Bool :=
  (value.getValue (bytes "astrobwt-max-size")).int?.isSome &&
    match value.getValue (bytes "astrobwt-avx2") with
    | .bool _ => true
    | _ => false

omit ft in
theorem readAstroBWT_eq (c : Config) (value : Json) : c.readAstroBWT value =
    { c with
      astrobwtMaxSize := maxSizeOf value c.astrobwtMaxSize
      astrobwtAVX2 := value.getBool (bytes "astrobwt-avx2") c.astrobwtAVX2
      shouldSave := c.shouldSave || !hasAstroBWT value } := by
  unfold readAstroBWT maxSizeOf hasAstroBWT Json.getBool
  cases hsize : (value.getValue (bytes "astrobwt-max-size")).int? <;>
    cases havx2 : value.getValue (bytes "astrobwt-avx2") <;> simp

/-- Each setting, as it is read of an object. -/
theorem readMembers_new (value : Json) (members : List (List UInt8 × Json)) :
    new.readMembers value members =
      { enabled := value.getBool (bytes "enabled") true
        hugePagesJit := value.getBool (bytes "huge-pages-jit") false
        limit := value.getUint (bytes "max-threads-hint") 100
        yield := value.getBool (bytes "yield") true
        aes := readAesMode (value.getValue (bytes "hw-aes"))
        hugePageSize := readHugePages kDefaultHugePageSizeKb (value.getValue (bytes "huge-pages"))
        memoryPool := readMemoryPool 0 (value.getValue (bytes "memory-pool"))
        priority := readPriority (value.getInt (bytes "priority") (-1))
        assembly := Assembly.parse (value.getValue (bytes "asm"))
        argon2Impl := if ft.argon2 then value.getString (bytes "argon2-impl") else none
        astrobwtMaxSize := if ft.astrobwt then maxSizeOf value 550 else 550
        astrobwtAVX2 := if ft.astrobwt then value.getBool (bytes "astrobwt-avx2") false else false
        shouldSave := ft.astrobwt && !hasAstroBWT value
        threads := Threads.empty.read members } := by
  unfold readMembers
  simp only [readAstroBWT_eq]
  cases hargon2 : ft.argon2 <;> cases hastrobwt : ft.astrobwt <;> rfl

omit ft in
theorem inRange_new (enabled : Bool) : ({ new with enabled } : Config).InRange := by
  have hnew : new.InRange := ⟨by decide, by decide, by decide, by decide⟩
  exact ⟨hnew.hugePageSize, hnew.memoryPool, hnew.priority, hnew.astrobwtMaxSize⟩

theorem inRange_readMembers (value : Json) (members : List (List UInt8 × Json)) :
    (new.readMembers value members).InRange := by
  rw [readMembers_new]
  refine ⟨readHugePages_lt (by decide), readMemoryPool_range (by decide), readPriority_range _, ?_⟩
  dsimp only
  split
  · unfold maxSizeOf
    cases (value.getValue (bytes "astrobwt-max-size")).int? with
    | none => decide
    | some n => simp
  · decide

/-- The names under which threads are read of the value are not empty. -/
def Readable : Json → Prop
  | .object members => Threads.Readable members
  | _ => True

/-- A fresh configuration that has read a value. -/
theorem settled_read (hplans : info.Plans) {v : Json} (hv : Readable v) :
    Settled (new.read info v) := by
  cases v with
  | object members =>
      refine settled_generate hplans (inRange_readMembers _ members) (fun h => ?_) ?_
      · rw [readMembers_new]
        simp [h]
      · rw [readMembers_new]
        exact Threads.sound_read hv
  | bool enabled =>
      exact settled_generate hplans (inRange_new enabled) (fun _ => ⟨rfl, rfl⟩) Threads.sound_empty
  | _ => exact settled_generate hplans (inRange_new true) (fun _ => ⟨rfl, rfl⟩) Threads.sound_empty

theorem generate_of_done (h : c.enabled = true → c.threads.has (bytes "*") = false →
    ∀ g ∈ Generator.all info c.limit, g.isDone c.threads = true) : c.generate info = c := by
  unfold generate
  split
  · rfl
  · next hskip =>
    simp only [Bool.or_eq_true, Bool.not_eq_true', not_or, Bool.not_eq_false,
      Bool.not_eq_true] at hskip
    rw [Generator.runAll_of_done (h hskip.1 hskip.2)]
    simp

/-- The settings and the threads that are used are the same, and there is nothing to save. -/
structure Unchanged (info : CpuInfo) (c d : Config) : Prop where
  get : ∀ a, d.get info a = c.get info a
  enabled : d.enabled = c.enabled
  aes : d.aes = c.aes
  hugePageSize : d.hugePageSize = c.hugePageSize
  memPoolSize : d.memPoolSize info = c.memPoolSize info
  priority : d.priority = c.priority
  yield : d.yield = c.yield
  shouldSave : d.shouldSave = false

/-- The settings and profiles that are read of what was written. -/
def readBack (c : Config) : Config :=
  new.readMembers c.toJSON (c.settings ++ c.threads.toJSON)

theorem threads_readBack (h : Settled c) : Threads.ReadBack c.threads c.readBack.threads := by
  have hthreads : c.readBack.threads = Threads.empty.read (c.settings ++ c.threads.toJSON) := by
    rw [readBack, readMembers_new]
  rw [hthreads]
  exact Threads.readBack h.sound skipped_settings

theorem enabled_readBack : c.readBack.enabled = c.enabled := by
  have hmem : (bytes "enabled", Json.bool c.enabled) ∈ c.settings := by simp [settings]
  rw [readBack, readMembers_new]
  exact getBool_toJSON hmem true

/-- What was read and written is read again without anything being generated. -/
theorem read_toJSON (hplans : info.Plans) (h : Settled c) : new.read info c.toJSON = c.readBack := by
  have hback := threads_readBack h
  change c.readBack.generate info = c.readBack
  refine generate_of_done fun henabled hstar g hg => ?_
  rw [enabled_readBack] at henabled
  rw [hback.has] at hstar
  exact (Generator.all_good _ hplans g hg).mono hback.grows (h.done henabled hstar _ _ g hg)

theorem astrobwt_readBack (h : Settled c) : c.readBack.astrobwtMaxSize = c.astrobwtMaxSize ∧
    c.readBack.astrobwtAVX2 = c.astrobwtAVX2 ∧ c.readBack.shouldSave = false := by
  rw [readBack, readMembers_new]
  dsimp only
  cases hbuilt : ft.astrobwt with
  | false =>
      obtain ⟨hsize, havx2⟩ := h.astrobwt hbuilt
      simp [hsize, havx2]
  | true =>
      obtain ⟨hlow, hhigh⟩ := h.inRange.astrobwtMaxSize
      have hsize : c.toJSON.getValue (bytes "astrobwt-max-size") = .int c.astrobwtMaxSize :=
        getValue_toJSON (by simp [settings, hbuilt])
      have havx2 : c.toJSON.getValue (bytes "astrobwt-avx2") = .bool c.astrobwtAVX2 :=
        getValue_toJSON (by simp [settings, hbuilt])
      have hclamp : min (max c.astrobwtMaxSize 400) 1200 = c.astrobwtMaxSize := by omega
      have hint : (Json.int c.astrobwtMaxSize).int? = some c.astrobwtMaxSize :=
        int?_int ⟨by omega, by omega⟩
      simp [maxSizeOf, hasAstroBWT, Json.getBool, hsize, havx2, hint, hclamp]

theorem unchanged_readBack (h : Settled c) : Unchanged info c c.readBack := by
  have hback := threads_readBack h
  have haes : c.readBack.aes = c.aes := by
    have hmem : (bytes "hw-aes", c.aesToJSON) ∈ c.settings := by simp [settings]
    rw [readBack, readMembers_new]
    exact (congrArg readAesMode (getValue_toJSON hmem)).trans readAesMode_toJSON
  have hpages : c.readBack.hugePageSize = c.hugePageSize := by
    have hmem : (bytes "huge-pages", c.hugePagesToJSON) ∈ c.settings := by simp [settings]
    rw [readBack, readMembers_new]
    exact (congrArg (readHugePages _) (getValue_toJSON hmem)).trans
      (readHugePages_toJSON h.inRange _)
  have hpriority : c.readBack.priority = c.priority := by
    have hmem : (bytes "priority", c.priorityToJSON) ∈ c.settings := by simp [settings]
    rw [readBack, readMembers_new]
    show readPriority ((c.toJSON.getValue (bytes "priority")).int?.getD (-1)) = _
    rw [getValue_toJSON hmem, readPriority_toJSON h.inRange]
  have hpool : c.readBack.memoryPool = readMemoryPool 0 c.memoryPoolToJSON := by
    have hmem : (bytes "memory-pool", c.memoryPoolToJSON) ∈ c.settings := by simp [settings]
    rw [readBack, readMembers_new]
    exact congrArg (readMemoryPool 0) (getValue_toJSON hmem)
  have hyield : c.readBack.yield = c.yield := by
    have hmem : (bytes "yield", Json.bool c.yield) ∈ c.settings := by simp [settings]
    rw [readBack, readMembers_new]
    exact getBool_toJSON hmem true
  have hassembly : c.readBack.assembly = c.assembly := by
    have hmem : (bytes "asm", c.assembly.toJSON) ∈ c.settings := by simp [settings]
    rw [readBack, readMembers_new]
    exact (congrArg Assembly.parse (getValue_toJSON hmem)).trans (Assembly.parse_toJSON _)
  obtain ⟨hsize, havx2, hsave⟩ := astrobwt_readBack h
  refine ⟨fun a => ?_, enabled_readBack, haes, hpages, memPoolSize_toJSON h.inRange hpool,
    hpriority, hyield, hsave⟩
  have hdata : ∀ thread n, c.readBack.launchData info a thread n = c.launchData info a thread n := by
    intro thread n
    unfold launchData isHugePages isHwAES
    rw [haes, hpages, hpriority, hyield, hassembly, hsize, havx2]
  unfold get
  simp only [hback.get h.sound a, hdata]

end Config

/-! ## The threads of `BasicCpuInfo` -/

/-- `BasicCpuInfo`: how many threads the processor has, and the part of them that a limit
leaves, which is a product of floats. -/
structure BasicCpuInfo where
  count : Nat
  scaled : UInt32 → Nat

namespace BasicCpuInfo

/-- `CpuThreads(count, intensity)`. -/
def unboundThreads (count : Nat) (intensity : UInt32) : List CpuThread :=
  List.replicate count ⟨-1, intensity⟩

/-- One thread for each of the first processing units. -/
def boundThreads (count : Nat) : List CpuThread :=
  (List.range count).map fun (i : Nat) => (⟨i, 0⟩ : CpuThread)

/-- `BasicCpuInfo::threads`. -/
def threads [Features] (b : BasicCpuInfo) (a : Algorithm) (limit : UInt32) : List CpuThread :=
  let countLimit := max (b.scaled limit) 1
  let countLimit2 := max (b.count / 2) countLimit
  let countLimit4 := max (b.count / 4) countLimit
  if b.count = 1 then unboundThreads 1 0
  else
    match a.family with
    | .CN_LITE => unboundThreads countLimit 1
    | .CN_PICO => unboundThreads countLimit 2
    | .CN_HEAVY => unboundThreads countLimit4 1
    | .RANDOM_X =>
        if a = .RX_WOW then unboundThreads countLimit 0
        else if a = .RX_XLA then boundThreads countLimit2
        else unboundThreads countLimit2 0
    | .ARGON2 => unboundThreads countLimit 0
    | .ASTROBWT => boundThreads countLimit
    | _ => unboundThreads countLimit2 1

theorem readable_unbound {n : Nat} {intensity : UInt32} (hn : 0 < n) (h : intensity ≤ 5) :
    unboundThreads n intensity ≠ [] ∧
      ∀ x ∈ unboundThreads n intensity, x.isValid = true ∧ x.Int32 := by
  refine ⟨by simpa [unboundThreads] using hn.ne', fun x hx => ?_⟩
  rw [(List.mem_replicate.mp hx).2]
  exact ⟨decide_eq_true h, (by decide : (-2 ^ 31 : Int) ≤ -1), (by decide : (-1 : Int) < 2 ^ 31)⟩

theorem readable_bound {n : Nat} (hn : 0 < n) (h : n ≤ 2 ^ 31) :
    boundThreads n ≠ [] ∧ ∀ x ∈ boundThreads n, x.isValid = true ∧ x.Int32 := by
  refine ⟨by simpa [boundThreads, ← Nat.pos_iff_ne_zero] using hn.ne', fun x hx => ?_⟩
  obtain ⟨i, hi, rfl⟩ := List.mem_map.mp hx
  rw [List.mem_range] at hi
  refine ⟨rfl, ?_⟩
  show -2 ^ 31 ≤ (i : Int) ∧ (i : Int) < 2 ^ 31
  omega

/-- The threads that it gives can be read again. -/
theorem plans [Features] {b : BasicCpuInfo} (hcount : b.count ≤ 2 ^ 31)
    (hscaled : ∀ limit, b.scaled limit ≤ 2 ^ 31) (hasAES : Bool) (L3 : Nat) :
    CpuInfo.Plans ⟨hasAES, b.count, L3, b.threads⟩ := by
  have hall : ∀ a limit, b.threads a limit ≠ [] ∧
      ∀ x ∈ b.threads a limit, x.isValid = true ∧ x.Int32 := by
    intro a limit
    have hlimit := hscaled limit
    unfold threads
    dsimp only
    split
    · exact readable_unbound (by decide) (by decide)
    · split
      · exact readable_unbound (by omega) (by decide)
      · exact readable_unbound (by omega) (by decide)
      · exact readable_unbound (by omega) (by decide)
      · split
        · exact readable_unbound (by omega) (by decide)
        · split
          · exact readable_bound (by omega) (by omega)
          · exact readable_unbound (by omega) (by decide)
      · exact readable_unbound (by omega) (by decide)
      · exact readable_bound (by omega) (by omega)
      · exact readable_unbound (by omega) (by decide)
  exact ⟨fun a limit => (hall a limit).1, fun a limit => (hall a limit).2⟩

end BasicCpuInfo

namespace Config

variable [Features] {info : CpuInfo}

/-- The thread plan and the settings survive being written and read. -/
theorem rereads (hplans : info.Plans) {v : Json} (hv : Readable v) :
    Unchanged info (new.read info v) (new.read info (new.read info v).toJSON) := by
  have hsettled := settled_read hplans hv
  rw [read_toJSON hplans hsettled]
  exact unchanged_readBack hsettled

end Config

end Cpu

namespace Cpu.Config

/-- Four processing units. -/
def quad : BasicCpuInfo := ⟨4, fun _ => 4⟩

def quadInfo : CpuInfo := ⟨true, 4, 8388608, @BasicCpuInfo.threads defaultFeatures quad⟩

/-- A profile, an alias of it, one of an algorithm that is missing, and a mark. -/
def someThreads : Json :=
  .object [(bytes "rx", .array [.int 0, .array [.int 2, .int 1]]), (bytes "cn/r", .string (bytes "rx")),
    (bytes "rx/wow", .string (bytes "missing")), (bytes "cn/2", .bool false),
    (bytes "memory-pool", .int (-5))]

theorem readable_someThreads : Readable someThreads := by
  refine List.forall_mem_cons.mpr ⟨fun _ _ => by decide +kernel, ?_⟩
  simp [Json.isArray, Json.isObject]

theorem reloads_someThreads :
    @Unchanged defaultFeatures quadInfo (@read defaultFeatures quadInfo new someThreads)
      (@read defaultFeatures quadInfo new
        (@toJSON defaultFeatures (@read defaultFeatures quadInfo new someThreads))) :=
  @rereads defaultFeatures quadInfo
    (@BasicCpuInfo.plans defaultFeatures quad (by simp [quad]) (fun _ => by simp [quad]) true 8388608)
    someThreads readable_someThreads

/-- A thread that runs more lanes than there are is not read again. -/
def sixLanes : CpuInfo := ⟨true, 1, 0, fun _ _ => [⟨0, 6⟩]⟩

/-- Then the profiles are generated once more, and have to be saved. -/
theorem regenerates : ¬ ∀ info : CpuInfo, (∀ a limit, info.threads a limit ≠ []) →
    ∀ v, Readable v →
      @Unchanged defaultFeatures info (@read defaultFeatures info new v)
        (@read defaultFeatures info new (@toJSON defaultFeatures (@read defaultFeatures info new v))) := by
  intro hall
  have hsave := (hall sixLanes (fun _ _ => List.cons_ne_nil _ _) .null trivial).shouldSave
  revert hsave
  decide +kernel

end Cpu.Config

end XLArig
