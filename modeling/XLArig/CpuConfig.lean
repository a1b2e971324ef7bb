import XLArig.CpuBackend
import XLArig.CpuConfig.Threads

/-!
# XLArig.CpuConfig

`backend/cpu/CpuConfig`: the settings of the backend, how they are read from the
configuration and written to it, and the profiles that are generated for the families of
algorithms that have none.

The threads that are generated are those of `Cpu::info()`, which is given.
-/

namespace XLArig

namespace Assembly

/-- `asmNames`. -/
def asmNames : List (Assembly × List UInt8) :=
  [(.NONE, bytes "none"), (.AUTO, bytes "auto"), (.INTEL, bytes "intel"), (.RYZEN, bytes "ryzen"),
    (.BULLDOZER, bytes "bulldozer")]

/-- `Assembly::parse`. -/
def parse : Json → Assembly
  | .bool b => if b then .AUTO else .NONE
  | .string s =>
      ((asmNames.find? fun x => CString.sameIgnoringCase (Json.cstr s) x.2).map Prod.fst).getD .AUTO
  | _ => .AUTO

/-- `Assembly::toJSON`. -/
def toJSON : Assembly → Json
  | .NONE => .bool false
  | .AUTO => .bool true
  | .INTEL => .string (bytes "intel")
  | .RYZEN => .string (bytes "ryzen")
  | .BULLDOZER => .string (bytes "bulldozer")

theorem parse_toJSON (a : Assembly) : parse a.toJSON = a := by
  cases a <;> decide +kernel

end Assembly

/-- `Algorithm::maxIntensity`. -/
def Algorithm.maxIntensity [Features] (a : Algorithm) : Nat :=
  if a.family = .RANDOM_X ∨ a.family = .ARGON2 ∨ a.family = .ASTROBWT then 1 else 5

namespace Cpu

/-- `Cpu::info()`; the threads for an algorithm and a limit are added one by one. -/
structure CpuInfo where
  hasAES : Bool
  count : Nat
  L3 : Nat
  threads : Algorithm → UInt32 → List CpuThread

/-! ## Generated profiles -/

/-- A profile, alias or mark that is generated, unless there is one already; how many is
counted. -/
structure Generator where
  isDone : Threads → Bool
  add : Threads → Nat × Threads

namespace Generator

def run (g : Generator) (t : Threads) : Nat × Threads := if g.isDone t then (0, t) else g.add t

/-- Some generators after another. -/
def runAll : List Generator → Threads → Nat × Threads
  | [], t => (0, t)
  | g :: gs, t =>
      let (count, t) := g.run t
      let (more, t) := runAll gs t
      (count + more, t)

variable [ft : Features] (info : CpuInfo) (limit : UInt32)

def planned (a : Algorithm) : CpuThreads := .ofList (info.threads a limit)

/-- `generate(key, threads, algorithm, limit)`. -/
def generate (key : List UInt8) (a : Algorithm) : Generator where
  isDone t := t.isExist a || t.has key
  add t := t.move key (planned info limit a)

/-- An algorithm that is left out unless it is asked for. -/
def disabled (a : Algorithm) : Generator where
  isDone t := t.isExist a
  add t := (1, t.disable a)

/-- An algorithm that shares the threads of `rx/wow`, if it can. -/
def likeWow (key : List UInt8) (a : Algorithm) : Generator where
  isDone t := t.isExist a
  add t :=
    if (planned info limit a).isEqual (planned info limit .RX_WOW) then
      (1, t.setAlias a (bytes "rx/wow"))
    else t.move key (planned info limit a)

def wow : Generator where
  isDone t := t.isExist .RX_WOW
  add t := t.move (bytes "rx/wow") (planned info limit .RX_WOW)

def panthera : Generator where
  isDone t := t.isExist .RX_XLA
  add t := (generate info limit (bytes "panthera") .RX_XLA).run t

def CN : List Generator := [generate info limit (bytes "cn") .CN_1, disabled .CN_0]

def CN_LITE : List Generator :=
  if ft.cnLite then [generate info limit (bytes "cn-lite") .CN_LITE_1, disabled .CN_LITE_0] else []

def CN_HEAVY : List Generator :=
  if ft.cnHeavy then [generate info limit (bytes "cn-heavy") .CN_HEAVY_0] else []

def CN_PICO : List Generator :=
  if ft.cnPico then [generate info limit (bytes "cn-pico") .CN_PICO_0] else []

def RANDOM_X : List Generator :=
  if ft.randomx then
    [likeWow info limit (bytes "rx/arq") .RX_ARQ, likeWow info limit (bytes "rx/keva") .RX_KEVA,
      wow info limit, panthera info limit, generate info limit (bytes "rx") .RX_0]
  else []

def ARGON2 : List Generator :=
  if ft.argon2 then [generate info limit (bytes "argon2") .AR2_CHUKWA_V2] else []

def ASTROBWT : List Generator :=
  if ft.astrobwt then [generate info limit (bytes "astrobwt") .ASTROBWT_DERO] else []

/-- All families, in their order. -/
def all : List Generator :=
  CN info limit ++ CN_LITE info limit ++ CN_HEAVY info limit ++ CN_PICO info limit ++
    RANDOM_X info limit ++ ARGON2 info limit ++ ASTROBWT info limit

end Generator

/-! ## The settings -/

/-- `CpuConfig::AesMode`. -/
inductive AesMode
  | AES_AUTO
  | AES_HW
  | AES_SOFT
  deriving DecidableEq, Repr

/-- `CpuConfig`. -/
structure Config where
  aes : AesMode
  assembly : Assembly
  astrobwtAVX2 : Bool
  enabled : Bool
  hugePagesJit : Bool
  shouldSave : Bool
  yield : Bool
  astrobwtMaxSize : Int
  memoryPool : Int
  priority : Int
  hugePageSize : Nat
  argon2Impl : CString
  threads : Threads
  limit : UInt32

namespace Config

def kDefaultHugePageSizeKb : Nat := 2048

def kOneGbPageSizeKb : Nat := 1048576

/-- A fresh configuration. -/
def new : Config where
  aes := .AES_AUTO
  assembly := .AUTO
  astrobwtAVX2 := false
  enabled := true
  hugePagesJit := false
  shouldSave := false
  yield := true
  astrobwtMaxSize := 550
  memoryPool := 0
  priority := -1
  hugePageSize := kDefaultHugePageSizeKb
  argon2Impl := none
  threads := .empty
  limit := 100

/-! ## Reading -/

/-- `setAesMode`. -/
def readAesMode : Json → AesMode
  | .bool b => if b then .AES_HW else .AES_SOFT
  | _ => .AES_AUTO

/-- `setHugePages`. -/
def readHugePages (hugePageSize : Nat) (value : Json) : Nat :=
  match value with
  | .bool b => if b then kDefaultHugePageSizeKb else 0
  | value =>
      match value.uint? with
      | some size => if size.toNat < kOneGbPageSizeKb then size.toNat else kDefaultHugePageSizeKb
      | none => hugePageSize

/-- `setMemoryPool`. -/
def readMemoryPool (memoryPool : Int) (value : Json) : Int :=
  match value with
  | .bool b => if b then -1 else 0
  | value => value.int?.getD memoryPool

/-- `setPriority`. -/
def readPriority (priority : Int) : Int := if -1 ≤ priority ∧ priority ≤ 5 then priority else -1

variable [ft : Features] (info : CpuInfo)

/-- The settings of AstroBWT; one that is missing has to be saved. -/
def readAstroBWT (c : Config) (value : Json) : Config :=
  let c := match (value.getValue (bytes "astrobwt-max-size")).int? with
    | some n => { c with astrobwtMaxSize := min (max n 400) 1200 }
    | none => { c with shouldSave := true }
  match value.getValue (bytes "astrobwt-avx2") with
  | .bool b => { c with astrobwtAVX2 := b }
  | _ => { c with shouldSave := true }

/-- `generate`. -/
def generate (c : Config) : Config :=
  if !c.enabled || c.threads.has (bytes "*") then c
  else
    let (count, threads) := Generator.runAll (Generator.all info c.limit) c.threads
    { c with threads, shouldSave := c.shouldSave || decide (0 < count) }

/-- The settings of an object, before profiles are generated. -/
def readMembers (c : Config) (value : Json) (members : List (List UInt8 × Json)) : Config :=
  let c := { c with
    enabled := value.getBool (bytes "enabled") c.enabled
    hugePagesJit := value.getBool (bytes "huge-pages-jit") c.hugePagesJit
    limit := value.getUint (bytes "max-threads-hint") c.limit
    yield := value.getBool (bytes "yield") c.yield
    aes := readAesMode (value.getValue (bytes "hw-aes"))
    hugePageSize := readHugePages c.hugePageSize (value.getValue (bytes "huge-pages"))
    memoryPool := readMemoryPool c.memoryPool (value.getValue (bytes "memory-pool"))
    priority := readPriority (value.getInt (bytes "priority") (-1))
    assembly := Assembly.parse (value.getValue (bytes "asm")) }
  let c := if ft.argon2 then { c with argon2Impl := value.getString (bytes "argon2-impl") } else c
  let c := if ft.astrobwt then c.readAstroBWT value else c
  { c with threads := c.threads.read members }

/-- `read`. -/
def read (c : Config) (value : Json) : Config :=
  match value with
  | .object members => (c.readMembers value members).generate info
  | .bool enabled => { c with enabled }.generate info
  | _ => c.generate info

/-! ## Writing -/

/-- `isHugePages`. -/
def isHugePages (c : Config) : Bool := decide (0 < c.hugePageSize)

def hugePagesToJSON (c : Config) : Json :=
  if c.hugePageSize = 0 ∨ c.hugePageSize = kDefaultHugePageSizeKb then .bool c.isHugePages
  else .int c.hugePageSize

def aesToJSON (c : Config) : Json := if c.aes = .AES_AUTO then .null else .bool (c.aes = .AES_HW)

def priorityToJSON (c : Config) : Json := if c.priority ≠ -1 then .int c.priority else .null

def memoryPoolToJSON (c : Config) : Json :=
  if c.memoryPool < 1 then .bool (c.memoryPool < 0) else .int c.memoryPool

/-- The members of `toJSON` that are no profiles. -/
def settings (c : Config) : List (List UInt8 × Json) :=
  [(bytes "enabled", .bool c.enabled), (bytes "huge-pages", c.hugePagesToJSON),
    (bytes "huge-pages-jit", .bool c.hugePagesJit), (bytes "hw-aes", c.aesToJSON),
    (bytes "priority", c.priorityToJSON), (bytes "memory-pool", c.memoryPoolToJSON),
    (bytes "yield", .bool c.yield)] ++
  (if c.threads.isEmpty then [(bytes "max-threads-hint", .int c.limit.toNat)] else []) ++
  [(bytes "asm", c.assembly.toJSON)] ++
  (if ft.argon2 then [(bytes "argon2-impl", .ofCString c.argon2Impl)] else []) ++
  (if ft.astrobwt then
    [(bytes "astrobwt-max-size", .int c.astrobwtMaxSize),
      (bytes "astrobwt-avx2", .bool c.astrobwtAVX2)]
  else [])

/-- `toJSON`. -/
def toJSON (c : Config) : Json := .object (c.settings ++ c.threads.toJSON)

/-! ## What the backend asks for -/

/-- `isHwAES`. -/
def isHwAES (c : Config) : Bool :=
  match c.aes with
  | .AES_AUTO => info.hasAES
  | .AES_HW => true
  | .AES_SOFT => false

/-- `memPoolSize`. -/
def memPoolSize (c : Config) : Nat :=
  if c.memoryPool < 0 then max info.count (info.L3 >>> 21) else c.memoryPool.toNat

/-- `CpuLaunchData(miner, algorithm, config, thread, threads)`. -/
def launchData (c : Config) (a : Algorithm) (thread : CpuThread) (threads : Nat) :
    CpuLaunchData where
  algorithm := a
  assembly := c.assembly
  astrobwtAVX2 := c.astrobwtAVX2
  hugePages := c.isHugePages
  hwAES := c.isHwAES info
  yield := c.yield
  astrobwtMaxSize := c.astrobwtMaxSize
  priority := c.priority
  affinity := thread.affinity
  threads
  intensity := min thread.lanes.toNat a.maxIntensity

/-- `get`. -/
def get (c : Config) (a : Algorithm) : List CpuLaunchData :=
  let threads := c.threads.get a
  threads.data.map fun thread => c.launchData info a thread threads.count

/-- The configuration as the miner and the backend ask it. -/
def forBackend (c : Config) : CpuConfig where
  isEnabled := c.enabled
  get := c.get info
  profileName := c.threads.profileName

end Config

end Cpu

end XLArig
