import XLArig.Job

/-!
# XLArig.RandomX

`crypto/rx/RxAlgo` and `crypto/rx/RxSeed`: the configurations of RandomX, and what a dataset
is made from.

How a cache is filled from a seed, and a dataset from a cache, is left open (`RandomX`); both
depend on the configuration that was applied last.
-/

namespace XLArig

/-- `RandomX_ConfigurationBase`, one for each group of algorithms. -/
inductive Configuration
  | Monero
  | Wownero
  | Arqma
  | Safex
  | Keva
  | Scala
  deriving DecidableEq, Repr

namespace Configuration

/-- `ProgramCount`. -/
def programCount : Configuration → Nat
  | Monero | Safex | Keva => 8
  | Wownero => 16
  | Arqma | Scala => 4

/-- `ScratchpadL3_Size`. -/
def scratchpadSize : Configuration → Nat
  | Monero | Safex => 2097152
  | Wownero | Keva => 1048576
  | Arqma | Scala => 262144

end Configuration

/-- `RxAlgo::base`. -/
def Algorithm.base : Algorithm → Configuration
  | RX_WOW => .Wownero
  | RX_ARQ => .Arqma
  | RX_SFX => .Safex
  | RX_KEVA => .Keva
  | RX_XLA => .Scala
  | _ => .Monero

/-- `randomx_init_cache` and `randomx_init_dataset`, for the configuration that is applied;
none is before the first `RxAlgo::apply`. -/
class RandomX where
  Cache : Type
  Dataset : Type
  initCache : Option Configuration → List UInt8 → Cache
  initDataset : Option Configuration → Cache → Dataset

/-- What a cache was filled from, and a dataset: the runs on concrete inputs use it. -/
instance recorded : RandomX where
  Cache := Option Configuration × List UInt8
  Dataset := Option Configuration × Option Configuration × List UInt8
  initCache := Prod.mk
  initDataset := Prod.mk

/-- `RxSeed`. -/
structure RxSeed where
  algorithm : Algorithm
  data : List UInt8
  deriving DecidableEq

namespace RxSeed

def empty : RxSeed := ⟨.INVALID, []⟩

/-- `RxSeed(job)`; a job is compared with a seed the same way. -/
def ofJob (job : Job) : RxSeed := ⟨job.algorithm, job.seed⟩

end RxSeed

/-- `RxConfig::Mode`. -/
inductive RxMode
  | AutoMode
  | FastMode
  | LightMode
  deriving DecidableEq, Repr

end XLArig
