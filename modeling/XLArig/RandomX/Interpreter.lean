import XLArig.RandomX.Branches
import XLArig.RandomX.Hash
import XLArig.RandomX.Items
import XLArig.RandomX.Superscalar

/-!
# XLArig.RandomX.Interpreter

`vm_interpreted`, `vm_interpreted_light` and `randomx_vm::initialize` of `crypto/randomx`: the
machines that execute a program without a compiler, with a dataset and without one.

A machine keeps the program and the bytecode of the run before (`Leftover`), and is handed the
scratchpad that the run before has left.
-/

namespace XLArig

attribute [local instance] neZero_registersCount neZero_registerCountFlt neZero_entropyCount
  neZero_blockSize

namespace Configuration

/-- `DatasetBaseSize + DatasetExtraSize`. -/
def datasetSize (config : Configuration) : Nat := config.datasetBaseSize + 33554368

/-- `randomx_dataset_item_count`. -/
def datasetItemCount (config : Configuration) : Nat := config.datasetSize / 64

/-- `fillAes4Rx4_Key`. -/
def fillAes4Rx4Key : Configuration → Fin 8 → Vec
  | Wownero =>
      ![.set 0xcf359e95 0x141f82b7 0x7ffbe4a6 0xf890465d,
        .set 0x6741ffdc 0xbd5c5ac3 0xfee8278a 0x6a55c450,
        .set 0x3d324aac 0xa7279ad2 0xd524fde4 0x114c47a4,
        .set 0x76f6db08 0x42d3dbd9 0x99a9aeff 0x810c3a2a,
        .set 0xcf359e95 0x141f82b7 0x7ffbe4a6 0xf890465d,
        .set 0x6741ffdc 0xbd5c5ac3 0xfee8278a 0x6a55c450,
        .set 0x3d324aac 0xa7279ad2 0xd524fde4 0x114c47a4,
        .set 0x76f6db08 0x42d3dbd9 0x99a9aeff 0x810c3a2a]
  | _ =>
      ![.set 0x99e5d23f 0x2f546d2b 0xd1833ddb 0x6421aadd,
        .set 0xa5dfcde5 0x06f79d53 0xb6913f55 0xb20e3450,
        .set 0x171c02bf 0x0aa4679f 0x515e7baf 0x5c3ed904,
        .set 0xd8ded291 0xcd673785 0xe78f5d08 0x85623763,
        .set 0x229effb4 0x3d518b6d 0xe3d6a7a6 0xb5826f73,
        .set 0xb272b7d2 0xe9024d4e 0x9c10b3d9 0xc7566bf3,
        .set 0xf63befa7 0x2ba9660a 0xf765a38b 0xf273c9e7,
        .set 0xc0b0762d 0x0c06d1fd 0x915839de 0x7a7cd609]

end Configuration

namespace Block

/-- The words of 64 bits. -/
def words (b : Block) : Words8 :=
  let word := fun lo hi : UInt32 => lo.toUInt64 ||| hi.toUInt64 <<< 32
  ![word b.v0.x b.v0.y, word b.v0.z b.v0.w, word b.v1.x b.v1.y, word b.v1.z b.v1.w,
    word b.v2.x b.v2.y, word b.v2.z b.v2.w, word b.v3.x b.v3.y, word b.v3.z b.v3.w]

def ofWords (w : Words8) : Block :=
  let vec := fun lo hi : UInt64 => Vec.mk lo.toUInt32 (lo >>> 32).toUInt32 hi.toUInt32 (hi >>> 32).toUInt32
  ⟨vec (w 0) (w 1), vec (w 2) (w 3), vec (w 4) (w 5), vec (w 6) (w 7)⟩

end Block

namespace InterpretedVm

open BytecodeMachine

section

variable [AesUnit]

/-! ## The program -/

/-- The state of `fillAes4Rx4`, which is the next block. -/
def fillState4 (config : Configuration) (softAes : Nat) (state : Block) : Block :=
  let key := config.fillAes4Rx4Key
  let step := fun (state : Block) (i j : Fin 8) =>
    (⟨aesdec softAes state.v0 (key i), aesenc softAes state.v1 (key i),
      aesdec softAes state.v2 (key j), aesenc softAes state.v3 (key j)⟩ : Block)
  step (step (step (step state 0 4) 1 5) 2 6) 3 7

/-- `fillAes4Rx4`. -/
def fillAes4Rx4 (config : Configuration) (softAes : Nat) (state : Block) (outputSize : Nat)
    (buffer : Nat → Block) : Nat → Block :=
  let x : Pass Block Unit Block := ⟨buffer, (), state⟩
  (sweep 64 (fun p x => x.write (fillState4 config softAes) id (p / 64)) outputSize 0 x).2.mem

/-- `generateProgram`. -/
def generateProgram (config : Configuration) (softAes : Bool) (seed : Block)
    (program : Nat → Block) : Nat → Block :=
  fillAes4Rx4 config (if softAes then 1 else 0) seed (128 + config.programSize * 8) program

end

/-- The word of a program at an index. -/
def wordAt (program : Nat → Block) (k : Nat) : UInt64 := (program (k / 8)).words (.ofNat 8 k)

/-- `getEntropy`. -/
def getEntropy (program : Nat → Block) (i : Fin 16) : UInt64 := wordAt program i

/-- `programBuffer[i]`. -/
def instruction (program : Nat → Block) (i : Nat) : Instruction :=
  let word := wordAt program (16 + i)
  { opcode := word.toUInt8
    dst := (word >>> 8).toUInt8
    src := (word >>> 16).toUInt8
    mod := (word >>> 24).toUInt8
    imm32 := (word >>> 32).toUInt32 }

/-! ## The state before a program -/

/-- `getSmallPositiveFloatBits`. -/
def getSmallPositiveFloatBits (entropy : UInt64) : UInt64 :=
  (((entropy >>> 59) + 1023) &&& 0x7FF) <<< 52 ||| entropy &&& 0xFFFFFFFFFFFFF

/-- `getStaticExponent`. -/
def getStaticExponent (entropy : UInt64) : UInt64 := ((0x300 : UInt64) ||| (entropy >>> 60) <<< 4) <<< 52

/-- `getFloatMask`. -/
def getFloatMask (entropy : UInt64) : UInt64 := entropy &&& 0x3FFFFF ||| getStaticExponent entropy

/-- What `randomx_vm::initialize` sets. -/
structure Initial where
  a : Fin 4 → VecF
  ma : UInt32
  mx : UInt32
  program : ProgramConfiguration
  datasetOffset : UInt64

/-- `randomx_vm::initialize`. -/
def vmInitialize (config : Configuration) (program : Nat → Block) : Initial :=
  let addressRegisters := getEntropy program 12
  { a := fun i =>
      ⟨getSmallPositiveFloatBits (getEntropy program (.ofNat 16 (2 * i))),
        getSmallPositiveFloatBits (getEntropy program (.ofNat 16 (2 * i + 1)))⟩
    ma := (getEntropy program 8).toUInt32 &&& config.cacheLineAlignMask
    mx := (getEntropy program 10).toUInt32
    program :=
      { eMask := ⟨getFloatMask (getEntropy program 14), getFloatMask (getEntropy program 15)⟩
        readReg0 := 0 + .ofNat 8 (addressRegisters &&& 1).toNat
        readReg1 := 2 + .ofNat 8 ((addressRegisters >>> 1) &&& 1).toNat
        readReg2 := 4 + .ofNat 8 ((addressRegisters >>> 2) &&& 1).toNat
        readReg3 := 6 + .ofNat 8 ((addressRegisters >>> 3) &&& 1).toNat }
    datasetOffset := (getEntropy program 13 % (524287 + 1)) * 64 }

/-! ## The memory -/

/-- What `setDataset` or `setCache` were given. -/
inductive Memory
  | dataset (items : Nat → Words8)
  | cache (c : RandomxCache)

/-- What `datasetRead` changes the registers by: the line of a dataset at an address, or an item
that is computed in its place. -/
def Memory.datasetRead (config : Configuration) : Memory → UInt64 → Except RxFault Words8
  | .dataset items, address =>
      if address.toNat % 64 = 0 ∧ address.toNat + 64 ≤ config.datasetSize then
        .ok (items (address.toNat / 64))
      else .error .dataset
  | .cache c, address =>
      Superscalar.initDatasetItem config c (address / 64).toUInt32.toUInt64

/-- Eight words of the scratchpad. -/
def load8 (config : Configuration) (s : State) (addr : UInt32) : Except RxFault Words8 :=
  if addr.toNat % 8 = 0 ∧ addr.toNat + 64 ≤ config.scratchpadSize then
    .ok fun i => s.scratchpad (addr.toNat / 8 + i)
  else .error .scratchpad

/-- The stores to eight words of the scratchpad. -/
def store8 (config : Configuration) (s : State) (addr : UInt32) (x : Words8) : Except RxFault State :=
  if addr.toNat % 8 = 0 ∧ addr.toNat + 64 ≤ config.scratchpadSize then
    .ok { s with
      scratchpad := fun k =>
        if addr.toNat / 8 ≤ k ∧ k < addr.toNat / 8 + 8 then x (.ofNat 8 (k - addr.toNat / 8))
        else s.scratchpad k }
  else .error .scratchpad

/-- Four registers of floating point numbers in memory. -/
def wordsF (x : Fin 4 → VecF) : Words8 :=
  ![(x 0).lo, (x 0).hi, (x 1).lo, (x 1).hi, (x 2).lo, (x 2).hi, (x 3).lo, (x 3).hi]

/-! ## The run -/

/-- The variables of the loop of `execute`. -/
structure Loop where
  s : State
  spAddr0 : UInt32
  spAddr1 : UInt32
  mx : UInt32
  ma : UInt32

section

variable [Fpu] (config : Configuration) (datasetRead : UInt64 → Except RxFault Words8)
variable (vm : Initial) (bytecode : Nat → InstructionByteCode)

/-- One turn of the loop of `execute`. -/
def iteration (x : Loop) : Except RxFault Loop := do
  let spMix := x.s.r vm.program.readReg0 ^^^ x.s.r vm.program.readReg1
  let spAddr0 := (x.spAddr0 ^^^ spMix.toUInt32) &&& config.scratchpadL3Mask64
  let spAddr1 := (x.spAddr1 ^^^ (spMix >>> 32).toUInt32) &&& config.scratchpadL3Mask64
  let line0 ← load8 config x.s spAddr0
  let line1 ← load8 config x.s spAddr1
  let s := { x.s with
    r := fun i => x.s.r i ^^^ line0 i
    f := fun i => .cvtPackedInt (line1 (.ofNat 8 i))
    e := fun i => maskRegisterExponentMantissa vm.program (.cvtPackedInt (line1 (.ofNat 8 (4 + i)))) }
  let s ← executeBytecode config vm.program bytecode (3 * config.programSize + 1) 0 s
  let mx := (x.mx ^^^ (s.r vm.program.readReg2 ^^^ s.r vm.program.readReg3).toUInt32) &&&
    config.cacheLineAlignMask
  let line ← datasetRead (vm.datasetOffset + x.ma.toUInt64)
  let s := { s with r := fun i => s.r i ^^^ line i }
  let s ← store8 config s spAddr1 s.r
  let s := { s with f := fun i => (s.f i).xor (s.e i) }
  let s ← store8 config s spAddr0 (wordsF s.f)
  -- `mx` and `ma` are swapped
  pure { s, spAddr0 := 0, spAddr1 := 0, mx := x.ma, ma := mx }

def iterations : (n : Nat) → Loop → Except RxFault Loop
  | 0, x => .ok x
  | n + 1, x => do
      let x ← iteration config datasetRead vm bytecode x
      iterations n x

end

/-- The end of `execute`: the scratchpad, the registers that are stored, and the rounding mode. -/
def finish (vm : Initial) (x : Loop) : (Nat → UInt64) × RegisterFile × Fin 4 :=
  (x.s.scratchpad,
    { r := .ofWords x.s.r
      f := .ofWords (wordsF x.s.f)
      e := .ofWords (wordsF x.s.e)
      a := .ofWords (wordsF vm.a) }, x.s.rounding)

/-- What a machine keeps from one run to the next, and does not use. -/
structure Leftover where
  program : Nat → Block
  bytecode : Nat → InstructionByteCode

/-- `InterpretedVm::run`. -/
def run [AesUnit] [Fpu] (config : Configuration) (softAes : Bool)
    (datasetRead : UInt64 → Except RxFault Words8) (left : Leftover) (scratchpad : Nat → UInt64)
    (seed : Block) (rounding : Fin 4) :
    Except RxFault (((Nat → UInt64) × RegisterFile × Fin 4) × Leftover) := do
  let program := generateProgram config softAes seed left.program
  let vm := vmInitialize config program
  let (_, bytecode) ← compileProgram config (instruction program) left.bytecode config.programSize
  -- the registers of floating point numbers are set by the first turn
  let s : State :=
    { r := fun _ => 0, f := fun _ => ⟨0, 0⟩, e := fun _ => ⟨0, 0⟩, a := vm.a, scratchpad, rounding }
  let x ← iterations config datasetRead vm bytecode config.programIterations
    { s, spAddr0 := vm.mx, spAddr1 := vm.ma, mx := vm.mx, ma := vm.ma }
  pure (finish vm x, { program, bytecode })

end InterpretedVm

end XLArig
