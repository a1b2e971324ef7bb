import XLArig.CString

/-!
# XLArig.Algorithm

`base/crypto/Algorithm`: the identifiers, their families and scratchpad sizes,
and the names by which configurations and pools call them.
-/

namespace XLArig

/-- Which of the `XMRIG_ALGO_*` macros the build defines. -/
class Features where
  cnLite : Bool
  cnHeavy : Bool
  cnPico : Bool
  randomx : Bool
  argon2 : Bool
  astrobwt : Bool
  kawpow : Bool

/-- The build without options. -/
instance defaultFeatures : Features := ⟨false, false, false, true, false, false, false⟩

/-- `Algorithm::Id`; an `Algorithm` is no more than its id. -/
inductive Algorithm
  | INVALID
  | CN_0 | CN_1 | CN_2 | CN_R | CN_FAST | CN_HALF | CN_XAO | CN_RTO | CN_RWZ | CN_ZLS | CN_DOUBLE
  | CN_LITE_0 | CN_LITE_1
  | CN_HEAVY_0 | CN_HEAVY_TUBE | CN_HEAVY_XHV
  | CN_PICO_0 | CN_PICO_TLO
  | CN_CCX
  | RX_0 | RX_WOW | RX_ARQ | RX_SFX | RX_KEVA | RX_XLA
  | AR2_CHUKWA | AR2_CHUKWA_V2 | AR2_WRKZ
  | ASTROBWT_DERO
  | KAWPOW_RVN
  deriving DecidableEq, Repr

namespace Algorithm

/-- `Algorithm::Family`. -/
inductive Family
  | UNKNOWN
  | CN
  | CN_LITE
  | CN_HEAVY
  | CN_PICO
  | RANDOM_X
  | ARGON2
  | ASTROBWT
  | KAWPOW
  deriving DecidableEq, Repr

variable [ft : Features]

/-- A family that the build leaves out is unknown. -/
def Family.ifBuilt (built : Bool) (f : Family) : Family := if built then f else .UNKNOWN

def family : Algorithm → Family
  | INVALID => .UNKNOWN
  | CN_0 | CN_1 | CN_2 | CN_R | CN_FAST | CN_HALF | CN_XAO | CN_RTO | CN_RWZ | CN_ZLS | CN_DOUBLE
  | CN_CCX => .CN
  | CN_LITE_0 | CN_LITE_1 => .ifBuilt ft.cnLite .CN_LITE
  | CN_HEAVY_0 | CN_HEAVY_TUBE | CN_HEAVY_XHV => .ifBuilt ft.cnHeavy .CN_HEAVY
  | CN_PICO_0 | CN_PICO_TLO => .ifBuilt ft.cnPico .CN_PICO
  | RX_0 | RX_WOW | RX_ARQ | RX_SFX | RX_KEVA | RX_XLA => .ifBuilt ft.randomx .RANDOM_X
  | AR2_CHUKWA | AR2_CHUKWA_V2 | AR2_WRKZ => .ifBuilt ft.argon2 .ARGON2
  | ASTROBWT_DERO => .ifBuilt ft.astrobwt .ASTROBWT
  | KAWPOW_RVN => .ifBuilt ft.kawpow .KAWPOW

/-- `Algorithm::isValid`. -/
def isValid (a : Algorithm) : Bool := a != INVALID && a.family != .UNKNOWN

/-- The scratchpad size of one lane. -/
def l3 (a : Algorithm) : Nat :=
  let oneMiB := 0x100000
  match a.family with
  | .CN => oneMiB * 2
  | .CN_LITE => oneMiB
  | .CN_HEAVY => oneMiB * 4
  | .CN_PICO => oneMiB / 4
  | .RANDOM_X =>
      match a with
      | RX_0 | RX_SFX => oneMiB * 2
      | RX_WOW | RX_KEVA => oneMiB
      | RX_ARQ | RX_XLA => oneMiB / 4
      | _ => 0
  | .ARGON2 =>
      match a with
      | AR2_CHUKWA => oneMiB / 2
      | AR2_CHUKWA_V2 => oneMiB
      | AR2_WRKZ => oneMiB / 4
      | _ => 0
  | .ASTROBWT => oneMiB * 20
  | .KAWPOW => 32768
  | .UNKNOWN => 0

/-! ## Names -/

/-- `AlgoName`. -/
structure AlgoName where
  name : String
  shortName : Option String
  id : Algorithm

/-- The table `algorithm_names` of the build. -/
def algorithmNames : List AlgoName :=
  [⟨"cryptonight/0", "cn/0", CN_0⟩, ⟨"cryptonight", "cn", CN_0⟩, ⟨"cryptonight/1", "cn/1", CN_1⟩,
    ⟨"cryptonight-monerov7", none, CN_1⟩, ⟨"cryptonight_v7", none, CN_1⟩,
    ⟨"cryptonight/2", "cn/2", CN_2⟩, ⟨"cryptonight-monerov8", none, CN_2⟩,
    ⟨"cryptonight_v8", none, CN_2⟩, ⟨"cryptonight/r", "cn/r", CN_R⟩, ⟨"cryptonight_r", none, CN_R⟩,
    ⟨"cryptonight/fast", "cn/fast", CN_FAST⟩, ⟨"cryptonight/msr", "cn/msr", CN_FAST⟩,
    ⟨"cryptonight/half", "cn/half", CN_HALF⟩, ⟨"cryptonight/xao", "cn/xao", CN_XAO⟩,
    ⟨"cryptonight_alloy", none, CN_XAO⟩, ⟨"cryptonight/rto", "cn/rto", CN_RTO⟩,
    ⟨"cryptonight/rwz", "cn/rwz", CN_RWZ⟩, ⟨"cryptonight/zls", "cn/zls", CN_ZLS⟩,
    ⟨"cryptonight/double", "cn/double", CN_DOUBLE⟩] ++
  (if ft.cnLite then
    [⟨"cryptonight-lite/0", "cn-lite/0", CN_LITE_0⟩,
      ⟨"cryptonight-lite/1", "cn-lite/1", CN_LITE_1⟩, ⟨"cryptonight-lite", "cn-lite", CN_LITE_1⟩,
      ⟨"cryptonight-light", "cn-light", CN_LITE_1⟩, ⟨"cryptonight_lite", none, CN_LITE_1⟩,
      ⟨"cryptonight-aeonv7", none, CN_LITE_1⟩, ⟨"cryptonight_lite_v7", none, CN_LITE_1⟩]
  else []) ++
  (if ft.cnHeavy then
    [⟨"cryptonight-heavy/0", "cn-heavy/0", CN_HEAVY_0⟩,
      ⟨"cryptonight-heavy", "cn-heavy", CN_HEAVY_0⟩, ⟨"cryptonight_heavy", none, CN_HEAVY_0⟩,
      ⟨"cryptonight-heavy/xhv", "cn-heavy/xhv", CN_HEAVY_XHV⟩,
      ⟨"cryptonight_haven", none, CN_HEAVY_XHV⟩,
      ⟨"cryptonight-heavy/tube", "cn-heavy/tube", CN_HEAVY_TUBE⟩,
      ⟨"cryptonight-bittube2", none, CN_HEAVY_TUBE⟩]
  else []) ++
  (if ft.cnPico then
    [⟨"cryptonight-pico", "cn-pico", CN_PICO_0⟩,
      ⟨"cryptonight-pico/trtl", "cn-pico/trtl", CN_PICO_0⟩,
      ⟨"cryptonight-turtle", "cn-trtl", CN_PICO_0⟩,
      ⟨"cryptonight-ultralite", "cn-ultralite", CN_PICO_0⟩,
      ⟨"cryptonight_turtle", "cn_turtle", CN_PICO_0⟩,
      ⟨"cryptonight-pico/tlo", "cn-pico/tlo", CN_PICO_TLO⟩,
      ⟨"cryptonight/ultra", "cn/ultra", CN_PICO_TLO⟩,
      ⟨"cryptonight-talleo", "cn-talleo", CN_PICO_TLO⟩,
      ⟨"cryptonight_talleo", "cn_talleo", CN_PICO_TLO⟩]
  else []) ++
  (if ft.randomx then
    [⟨"randomx/0", "rx/0", RX_0⟩, ⟨"randomx/test", "rx/test", RX_0⟩, ⟨"RandomX", "rx", RX_0⟩,
      ⟨"randomx/wow", "rx/wow", RX_WOW⟩, ⟨"RandomWOW", none, RX_WOW⟩,
      ⟨"randomx/arq", "rx/arq", RX_ARQ⟩, ⟨"RandomARQ", none, RX_ARQ⟩,
      ⟨"randomx/sfx", "rx/sfx", RX_SFX⟩, ⟨"RandomSFX", none, RX_SFX⟩,
      ⟨"randomx/keva", "rx/keva", RX_KEVA⟩, ⟨"RandomKEVA", none, RX_KEVA⟩,
      ⟨"Panthera", "panthera", RX_XLA⟩, ⟨"panthera", "panthera", RX_XLA⟩]
  else []) ++
  (if ft.argon2 then
    [⟨"argon2/chukwa", none, AR2_CHUKWA⟩, ⟨"chukwa", none, AR2_CHUKWA⟩,
      ⟨"argon2/chukwav2", none, AR2_CHUKWA_V2⟩, ⟨"chukwav2", none, AR2_CHUKWA_V2⟩,
      ⟨"argon2/wrkz", none, AR2_WRKZ⟩]
  else []) ++
  (if ft.astrobwt then
    [⟨"astrobwt", none, ASTROBWT_DERO⟩, ⟨"astrobwt/dero", none, ASTROBWT_DERO⟩]
  else []) ++
  (if ft.kawpow then [⟨"kawpow", none, KAWPOW_RVN⟩, ⟨"kawpow/rvn", none, KAWPOW_RVN⟩] else []) ++
  [⟨"cryptonight/ccx", "cn/ccx", CN_CCX⟩, ⟨"cryptonight/conceal", "cn/conceal", CN_CCX⟩]

/-- One of the two names of `item`, in any case. -/
def AlgoName.isNamed (item : AlgoName) (name : List UInt8) : Bool :=
  CString.sameIgnoringCase name (bytes item.name) ||
    item.shortName.any fun s => CString.sameIgnoringCase name (bytes s)

/-- `Algorithm::parse`: the first item with that name. -/
def parse : CString → Algorithm
  | none => INVALID
  | some [] => INVALID
  | some name =>
      match algorithmNames.find? (·.isNamed name) with
      | some item => item.id
      | none => INVALID

/-- `Algorithm::shortName`, which falls back to the name. -/
def shortName (a : Algorithm) : List UInt8 :=
  match algorithmNames.find? (·.id == a) with
  | some item => bytes (item.shortName.getD item.name)
  | none => bytes "invalid"

end Algorithm

end XLArig
