import XLArig.RandomX
import XLArig.RandomX.Arithmetic
import XLArig.Sure

/-!
# XLArig.RandomX.Bytecode

`crypto/randomx/bytecode_machine`: how a program is compiled to bytecode, and how the bytecode is
executed.

A pointer of the bytecode is what it points to: a register, the constant zero, or the immediate
of its own instruction.  The scratchpad is an array of words; an access that is outside of it, or
that is not aligned, is a fault (`Fault`).  What the processor computes with floating point
numbers is left open (`Fpu`).
-/

namespace XLArig

theorem neZero_registersCount : NeZero 8 := ⟨by decide⟩

theorem neZero_registerCountFlt : NeZero 4 := ⟨by decide⟩

theorem neZero_entropyCount : NeZero 16 := ⟨by decide⟩

theorem neZero_blockSize : NeZero 64 := ⟨by decide⟩

attribute [local instance] neZero_registersCount neZero_registerCountFlt neZero_entropyCount

namespace Configuration

/-- `ProgramSize`. -/
def programSize : Configuration → Nat
  | Scala => 64
  | _ => 256

/-- `ProgramIterations`. -/
def programIterations : Configuration → Nat
  | Wownero | Arqma | Scala => 1024
  | _ => 2048

/-- `ScratchpadL1_Size`. -/
def scratchpadL1 : Configuration → Nat
  | Scala => 65536
  | _ => 16384

/-- `ScratchpadL2_Size`. -/
def scratchpadL2 : Configuration → Nat
  | Wownero | Arqma | Keva | Scala => 131072
  | _ => 262144

/-- `DatasetBaseSize`. -/
def datasetBaseSize : Configuration → Nat
  | Scala => 33554432
  | _ => 2147483648

/-- `AddressMask_Calculated`. -/
def addressMask (config : Configuration) (modMem : UInt8) : UInt32 :=
  if modMem = 0 then .ofNat ((config.scratchpadL2 / 8 - 1) * 8)
  else .ofNat ((config.scratchpadL1 / 8 - 1) * 8)

/-- `ScratchpadL3Mask_Calculated`. -/
def scratchpadL3Mask (config : Configuration) : UInt32 :=
  .ofNat ((config.scratchpadSize / 8 - 1) * 8)

/-- `ScratchpadL3Mask64_Calculated`. -/
def scratchpadL3Mask64 (config : Configuration) : UInt32 :=
  .ofNat ((config.scratchpadSize / 8 / 8 - 1) * 64)

/-- `CacheLineAlignMask_Calculated`. -/
def cacheLineAlignMask (config : Configuration) : UInt32 :=
  .ofNat (config.datasetBaseSize - 1) &&& ~~~(64 - 1)

end Configuration

/-- `InstructionType`. -/
inductive InstructionType
  | IADD_RS
  | IADD_M
  | ISUB_R
  | ISUB_M
  | IMUL_R
  | IMUL_M
  | IMULH_R
  | IMULH_M
  | ISMULH_R
  | ISMULH_M
  | IMUL_RCP
  | INEG_R
  | IXOR_R
  | IXOR_M
  | IROR_R
  | IROL_R
  | ISWAP_R
  | FSWAP_R
  | FADD_R
  | FADD_M
  | FSUB_R
  | FSUB_M
  | FSCAL_R
  | FMUL_R
  | FDIV_M
  | FSQRT_R
  | CBRANCH
  | CFROUND
  | ISTORE
  | NOP
  deriving DecidableEq, Repr

namespace InstructionType

/-- The order in which `compileInstruction` takes the frequencies off the opcode. -/
def all : List InstructionType :=
  [IADD_RS, IADD_M, ISUB_R, ISUB_M, IMUL_R, IMUL_M, IMULH_R, IMULH_M, ISMULH_R, ISMULH_M, IMUL_RCP,
    INEG_R, IXOR_R, IXOR_M, IROR_R, IROL_R, ISWAP_R, FSWAP_R, FADD_R, FADD_M, FSUB_R, FSUB_M,
    FSCAL_R, FMUL_R, FDIV_M, FSQRT_R, CBRANCH, CFROUND, ISTORE, NOP]

end InstructionType

/-- The fields `RANDOMX_FREQ_*`. -/
def Configuration.freq : Configuration → InstructionType → Nat
  | .Wownero, .IADD_RS => 25
  | .Wownero, .IROR_R => 10
  | .Wownero, .IROL_R => 0
  | .Wownero, .FSWAP_R => 8
  | .Wownero, .FADD_R => 20
  | .Wownero, .FSUB_R => 20
  | .Wownero, .FMUL_R => 20
  | .Wownero, .CBRANCH => 16
  | .Scala, .IADD_RS => 25
  | .Scala, .CBRANCH => 16
  | _, .IADD_RS => 16
  | _, .IADD_M => 7
  | _, .ISUB_R => 16
  | _, .ISUB_M => 7
  | _, .IMUL_R => 16
  | _, .IMUL_M => 4
  | _, .IMULH_R => 4
  | _, .IMULH_M => 1
  | _, .ISMULH_R => 4
  | _, .ISMULH_M => 1
  | _, .IMUL_RCP => 8
  | _, .INEG_R => 2
  | _, .IXOR_R => 15
  | _, .IXOR_M => 5
  | _, .IROR_R => 8
  | _, .IROL_R => 2
  | _, .ISWAP_R => 4
  | _, .FSWAP_R => 4
  | _, .FADD_R => 16
  | _, .FADD_M => 5
  | _, .FSUB_R => 16
  | _, .FSUB_M => 5
  | _, .FSCAL_R => 6
  | _, .FMUL_R => 32
  | _, .FDIV_M => 4
  | _, .FSQRT_R => 6
  | _, .CBRANCH => 25
  | _, .CFROUND => 1
  | _, .ISTORE => 16
  | _, .NOP => 0

/-- What the source does not check. -/
inductive RxFault
  | unreachable
  | pointer
  | shift
  | division
  | scratchpad
  | cache
  | dataset
  | pc
  | endless
  deriving DecidableEq, Repr

/-- `rx_vec_f128`. -/
@[ext]
structure VecF where
  lo : UInt64
  hi : UInt64
  deriving DecidableEq, Repr

namespace VecF

/-- `rx_swap_vec_f128`. -/
def swap (x : VecF) : VecF := ⟨x.hi, x.lo⟩

/-- `rx_set1_vec_f128`. -/
def set1 (x : UInt64) : VecF := ⟨x, x⟩

/-- `rx_xor_vec_f128`. -/
def xor (x y : VecF) : VecF := ⟨x.lo ^^^ y.lo, x.hi ^^^ y.hi⟩

/-- `rx_and_vec_f128`. -/
def and (x y : VecF) : VecF := ⟨x.lo &&& y.lo, x.hi &&& y.hi⟩

/-- `rx_or_vec_f128`. -/
def or (x y : VecF) : VecF := ⟨x.lo ||| y.lo, x.hi ||| y.hi⟩

end VecF

/-- The operations on numbers of 64 bits, in each of the four rounding modes. -/
class Fpu where
  add : (rounding : Fin 4) → UInt64 → UInt64 → UInt64
  sub : (rounding : Fin 4) → UInt64 → UInt64 → UInt64
  mul : (rounding : Fin 4) → UInt64 → UInt64 → UInt64
  div : (rounding : Fin 4) → UInt64 → UInt64 → UInt64
  sqrt : (rounding : Fin 4) → UInt64 → UInt64
  ofInt32 : UInt32 → UInt64

namespace VecF

/-- An operation on both halves. -/
def map₂ (op : UInt64 → UInt64 → UInt64) (x y : VecF) : VecF := ⟨op x.lo y.lo, op x.hi y.hi⟩

/-- `rx_cvt_packed_int_vec_f128`, of the word that is loaded. -/
def cvtPackedInt [Fpu] (x : UInt64) : VecF := ⟨Fpu.ofInt32 x.toUInt32, Fpu.ofInt32 (x >>> 32).toUInt32⟩

end VecF

/-- `Instruction`. -/
structure Instruction where
  opcode : UInt8
  dst : UInt8
  src : UInt8
  mod : UInt8
  imm32 : UInt32
  deriving DecidableEq, Repr

namespace Instruction

def getModMem (instr : Instruction) : UInt8 := instr.mod &&& 3

def getModShift (instr : Instruction) : UInt8 := (instr.mod >>> 2) &&& 3

def getModCond (instr : Instruction) : UInt8 := instr.mod >>> 4

/-- `instr.dst % RegistersCount`. -/
def dstR (instr : Instruction) : Fin 8 := .ofNat 8 instr.dst.toNat

/-- `instr.src % RegistersCount`. -/
def srcR (instr : Instruction) : Fin 8 := .ofNat 8 instr.src.toNat

/-- `instr.dst % RegisterCountFlt`. -/
def dstFlt (instr : Instruction) : Fin 4 := .ofNat 4 instr.dst.toNat

/-- `instr.src % RegisterCountFlt`. -/
def srcFlt (instr : Instruction) : Fin 4 := .ofNat 4 instr.src.toNat

end Instruction

/-- `signExtend2sCompl`. -/
def signExtend2sCompl (x : UInt32) : UInt64 :=
  if x > 0x7FFFFFFF then x.toUInt64 ||| 0xFFFFFFFF00000000 else x.toUInt64

/-- What a pointer of the bytecode points to. -/
inductive Pointer
  | r (i : Fin 8)
  | f (i : Fin 4)
  | e (i : Fin 4)
  | a (i : Fin 4)
  | zero
  | imm
  deriving DecidableEq, Repr

/-- `InstructionByteCode`: `word` is the union of `target` and `shift`. -/
structure InstructionByteCode where
  dst : Pointer
  src : Pointer
  imm : UInt64
  type : InstructionType
  word : UInt16
  memMask : UInt32
  deriving DecidableEq, Repr

namespace BytecodeMachine

/-! ## Compilation -/

/-- `registerUsage`: the instruction that has written a register last. -/
abbrev Usage := Fin 8 → Int

/-- The chain of comparisons that an opcode goes through. -/
def decode (config : Configuration) : List InstructionType → Nat → Option InstructionType
  | [], _ => none
  | type :: rest, opcode =>
      if opcode < config.freq type then some type else decode config rest (opcode - config.freq type)

/-- A source and a destination, or an immediate in place of a source that is the destination. -/
def compileR (type : InstructionType) (imm : UInt64) (instr : Instruction)
    (ibc : InstructionByteCode) : InstructionByteCode :=
  if instr.srcR ≠ instr.dstR then { ibc with type, dst := .r instr.dstR, src := .r instr.srcR }
  else { ibc with type, dst := .r instr.dstR, src := .imm, imm }

/-- A destination and a word of the scratchpad. -/
def compileM (config : Configuration) (type : InstructionType) (instr : Instruction)
    (ibc : InstructionByteCode) : InstructionByteCode :=
  let ibc := { ibc with type, dst := .r instr.dstR, imm := signExtend2sCompl instr.imm32 }
  if instr.srcR ≠ instr.dstR then
    { ibc with src := .r instr.srcR, memMask := config.addressMask instr.getModMem }
  else { ibc with src := .zero, memMask := config.scratchpadL3Mask }

/-- A register of floating point numbers and a word of the scratchpad. -/
def compileFltM (config : Configuration) (type : InstructionType) (dst : Pointer)
    (instr : Instruction) (ibc : InstructionByteCode) : InstructionByteCode :=
  { ibc with
    type
    dst
    src := .r instr.srcR
    memMask := config.addressMask instr.getModMem
    imm := signExtend2sCompl instr.imm32 }

/-- The immediate of a branch: one bit is set, and the one below is not. -/
def branchImm (x shift : UInt64) : UInt64 :=
  (x ||| (0x100 : UInt64) <<< shift) &&& ~~~((0x80 : UInt64) <<< shift)

/-- `ConditionMask_Calculated`, shifted. -/
def branchMask (shift : UInt64) : UInt32 := ((0xFF00 : UInt64) <<< shift).toUInt32

/-- `compileInstruction`, once the type is known. -/
def compileType (config : Configuration) (instr : Instruction) (i : Nat) (usage : Usage)
    (ibc : InstructionByteCode) : InstructionType → Usage × InstructionByteCode
  | .IADD_RS =>
      (Function.update usage instr.dstR i,
        { ibc with
          type := .IADD_RS
          dst := .r instr.dstR
          src := .r instr.srcR
          word := instr.getModShift.toUInt16
          imm := if instr.dstR ≠ 5 then 0 else signExtend2sCompl instr.imm32 })
  | .IADD_M => (Function.update usage instr.dstR i, compileM config .IADD_M instr ibc)
  | .ISUB_R =>
      (Function.update usage instr.dstR i,
        compileR .ISUB_R (signExtend2sCompl instr.imm32) instr ibc)
  | .ISUB_M => (Function.update usage instr.dstR i, compileM config .ISUB_M instr ibc)
  | .IMUL_R =>
      (Function.update usage instr.dstR i,
        compileR .IMUL_R (signExtend2sCompl instr.imm32) instr ibc)
  | .IMUL_M => (Function.update usage instr.dstR i, compileM config .IMUL_M instr ibc)
  | .IMULH_R =>
      (Function.update usage instr.dstR i,
        { ibc with type := .IMULH_R, dst := .r instr.dstR, src := .r instr.srcR })
  | .IMULH_M => (Function.update usage instr.dstR i, compileM config .IMULH_M instr ibc)
  | .ISMULH_R =>
      (Function.update usage instr.dstR i,
        { ibc with type := .ISMULH_R, dst := .r instr.dstR, src := .r instr.srcR })
  | .ISMULH_M => (Function.update usage instr.dstR i, compileM config .ISMULH_M instr ibc)
  | .IMUL_RCP =>
      if !Portable.isZeroOrPowerOf2 instr.imm32.toUInt64 then
        (Function.update usage instr.dstR i,
          { ibc with
            type := .IMUL_R
            dst := .r instr.dstR
            imm := Portable.reciprocal instr.imm32.toUInt64
            src := .imm })
      else (usage, { ibc with type := .NOP })
  | .INEG_R => (Function.update usage instr.dstR i, { ibc with type := .INEG_R, dst := .r instr.dstR })
  | .IXOR_R =>
      (Function.update usage instr.dstR i,
        compileR .IXOR_R (signExtend2sCompl instr.imm32) instr ibc)
  | .IXOR_M => (Function.update usage instr.dstR i, compileM config .IXOR_M instr ibc)
  | .IROR_R => (Function.update usage instr.dstR i, compileR .IROR_R instr.imm32.toUInt64 instr ibc)
  | .IROL_R => (Function.update usage instr.dstR i, compileR .IROL_R instr.imm32.toUInt64 instr ibc)
  | .ISWAP_R =>
      if instr.srcR ≠ instr.dstR then
        (Function.update (Function.update usage instr.dstR i) instr.srcR i,
          { ibc with dst := .r instr.dstR, src := .r instr.srcR, type := .ISWAP_R })
      else (usage, { ibc with type := .NOP })
  | .FSWAP_R =>
      (usage,
        { ibc with
          type := .FSWAP_R
          dst := if instr.dstR < 4 then .f (.ofNat 4 instr.dstR) else .e (.ofNat 4 (instr.dstR - 4)) })
  | .FADD_R => (usage, { ibc with type := .FADD_R, dst := .f instr.dstFlt, src := .a instr.srcFlt })
  | .FADD_M => (usage, compileFltM config .FADD_M (.f instr.dstFlt) instr ibc)
  | .FSUB_R => (usage, { ibc with type := .FSUB_R, dst := .f instr.dstFlt, src := .a instr.srcFlt })
  | .FSUB_M => (usage, compileFltM config .FSUB_M (.f instr.dstFlt) instr ibc)
  | .FSCAL_R => (usage, { ibc with type := .FSCAL_R, dst := .f instr.dstFlt })
  | .FMUL_R => (usage, { ibc with type := .FMUL_R, dst := .e instr.dstFlt, src := .a instr.srcFlt })
  | .FDIV_M => (usage, compileFltM config .FDIV_M (.e instr.dstFlt) instr ibc)
  | .FSQRT_R => (usage, { ibc with type := .FSQRT_R, dst := .e instr.dstFlt })
  | .CBRANCH =>
      let shift := instr.getModCond.toUInt64
      (fun _ => i,
        { ibc with
          type := .CBRANCH
          dst := .r instr.dstR
          word := (Int16.ofInt (usage instr.dstR)).toUInt16
          imm := branchImm (signExtend2sCompl instr.imm32) shift
          memMask := branchMask shift })
  | .CFROUND =>
      (usage, { ibc with type := .CFROUND, src := .r instr.srcR, imm := (instr.imm32 &&& 63).toUInt64 })
  | .ISTORE =>
      (usage,
        { ibc with
          type := .ISTORE
          dst := .r instr.dstR
          src := .r instr.srcR
          imm := signExtend2sCompl instr.imm32
          memMask := if instr.getModCond < 14 then config.addressMask instr.getModMem
            else config.scratchpadL3Mask })
  | .NOP => (usage, { ibc with type := .NOP })

/-- `compileInstruction`. -/
def compileInstruction (config : Configuration) (instr : Instruction) (i : Nat) (usage : Usage)
    (ibc : InstructionByteCode) : Except RxFault (Usage × InstructionByteCode) :=
  match decode config InstructionType.all instr.opcode.toNat with
  | some type => .ok (compileType config instr i usage ibc type)
  | none => .error .unreachable

/-- The first `n` instructions of `compileProgram`, over a bytecode that is there already. -/
def compileProgram (config : Configuration) (program : Nat → Instruction)
    (bytecode : Nat → InstructionByteCode) :
    Nat → Except RxFault (Usage × (Nat → InstructionByteCode))
  | 0 => .ok (fun _ => -1, bytecode)
  | n + 1 => do
      let (usage, bytecode) ← compileProgram config program bytecode n
      let (usage, ibc) ← compileInstruction config (program n) n usage (bytecode n)
      pure (usage, Function.update bytecode n ibc)

/-! ## Execution -/

/-- `NativeRegisterFile`, the scratchpad and the rounding mode. -/
@[ext]
structure State where
  r : Fin 8 → UInt64
  f : Fin 4 → VecF
  e : Fin 4 → VecF
  a : Fin 4 → VecF
  scratchpad : Nat → UInt64
  rounding : Fin 4

/-- `ProgramConfiguration`. -/
structure ProgramConfiguration where
  eMask : VecF
  readReg0 : Fin 8
  readReg1 : Fin 8
  readReg2 : Fin 8
  readReg3 : Fin 8

section

variable (config : Configuration) (s : State) (ibc : InstructionByteCode)

/-- `load64(scratchpad + addr)`. -/
def load64 (addr : Nat) : Except RxFault UInt64 :=
  if addr % 8 = 0 ∧ addr + 8 ≤ config.scratchpadSize then .ok (s.scratchpad (addr / 8))
  else .error .scratchpad

/-- `store64(scratchpad + addr, x)`. -/
def store64 (addr : Nat) (x : UInt64) : Except RxFault State :=
  if addr % 8 = 0 ∧ addr + 8 ≤ config.scratchpadSize then
    .ok { s with scratchpad := Function.update s.scratchpad (addr / 8) x }
  else .error .scratchpad

/-- The register that `idst` points to. -/
def idst : Except RxFault (Fin 8) :=
  match ibc.dst with
  | .r i => .ok i
  | _ => .error .pointer

/-- `*ibc.isrc`. -/
def isrc : Except RxFault UInt64 :=
  match ibc.src with
  | .r i => .ok (s.r i)
  | .zero => .ok 0
  | .imm => .ok ibc.imm
  | _ => .error .pointer

/-- `*ibc.fsrc`. -/
def fsrc : Except RxFault VecF :=
  match ibc.src with
  | .f i => .ok (s.f i)
  | .e i => .ok (s.e i)
  | .a i => .ok (s.a i)
  | _ => .error .pointer

def setR (i : Fin 8) (x : UInt64) : State := { s with r := Function.update s.r i x }

/-- A change of `*ibc.idst`. -/
def modifyR (op : UInt64 → UInt64) : Except RxFault State := do
  let d ← idst ibc
  pure (setR s d (op (s.r d)))

/-- A change of `*ibc.fdst`. -/
def modifyF (op : VecF → VecF) : Except RxFault State :=
  match ibc.dst with
  | .f i => .ok { s with f := Function.update s.f i (op (s.f i)) }
  | .e i => .ok { s with e := Function.update s.e i (op (s.e i)) }
  | .a i => .ok { s with a := Function.update s.a i (op (s.a i)) }
  | _ => .error .pointer

/-- The word at `getScratchpadAddress`. -/
def loadM : Except RxFault UInt64 := do
  let x ← isrc s ibc
  load64 config s ((x + ibc.imm) &&& ibc.memMask.toUInt64).toUInt32.toNat

/-- `maskRegisterExponentMantissa`. -/
def maskRegisterExponentMantissa (program : ProgramConfiguration) (x : VecF) : VecF :=
  (x.and (.set1 0xFFFFFFFFFFFFFF)).or program.eMask

open Portable (mulh smulh rotr64 rotl64)

variable [Fpu] (program : ProgramConfiguration)

/-- `executeInstruction`, of an instruction that does not branch. -/
def executePlain : Except RxFault State :=
  match ibc.type with
  | .IADD_RS => do
      let x ← isrc s ibc
      modifyR s ibc fun d => d + ((x <<< ibc.word.toUInt64) + ibc.imm)
  | .IADD_M => do
      let x ← loadM config s ibc
      modifyR s ibc (· + x)
  | .ISUB_R => do
      let x ← isrc s ibc
      modifyR s ibc (· - x)
  | .ISUB_M => do
      let x ← loadM config s ibc
      modifyR s ibc (· - x)
  | .IMUL_R => do
      let x ← isrc s ibc
      modifyR s ibc (· * x)
  | .IMUL_M => do
      let x ← loadM config s ibc
      modifyR s ibc (· * x)
  | .IMULH_R => do
      let x ← isrc s ibc
      modifyR s ibc (mulh · x)
  | .IMULH_M => do
      let x ← loadM config s ibc
      modifyR s ibc (mulh · x)
  | .ISMULH_R => do
      let x ← isrc s ibc
      modifyR s ibc (smulh · x)
  | .ISMULH_M => do
      let x ← loadM config s ibc
      modifyR s ibc (smulh · x)
  | .INEG_R => modifyR s ibc fun d => ~~~d + 1
  | .IXOR_R => do
      let x ← isrc s ibc
      modifyR s ibc (· ^^^ x)
  | .IXOR_M => do
      let x ← loadM config s ibc
      modifyR s ibc (· ^^^ x)
  | .IROR_R => do
      let x ← isrc s ibc
      modifyR s ibc (rotr64 · (x &&& 63))
  | .IROL_R => do
      let x ← isrc s ibc
      modifyR s ibc (rotl64 · (x &&& 63))
  | .ISWAP_R => do
      let temp ← isrc s ibc
      let d ← idst ibc
      -- the store through `isrc` takes away that what it points to is constant
      match ibc.src with
      | .r i => pure (setR (setR s i (s.r d)) d temp)
      | _ => .error .pointer
  | .FSWAP_R => modifyF s ibc VecF.swap
  | .FADD_R => do
      let x ← fsrc s ibc
      modifyF s ibc (VecF.map₂ (Fpu.add s.rounding) · x)
  | .FADD_M => do
      let x ← loadM config s ibc
      modifyF s ibc (VecF.map₂ (Fpu.add s.rounding) · (.cvtPackedInt x))
  | .FSUB_R => do
      let x ← fsrc s ibc
      modifyF s ibc (VecF.map₂ (Fpu.sub s.rounding) · x)
  | .FSUB_M => do
      let x ← loadM config s ibc
      modifyF s ibc (VecF.map₂ (Fpu.sub s.rounding) · (.cvtPackedInt x))
  | .FSCAL_R => modifyF s ibc fun d => d.xor (.set1 0x80F0000000000000)
  | .FMUL_R => do
      let x ← fsrc s ibc
      modifyF s ibc (VecF.map₂ (Fpu.mul s.rounding) · x)
  | .FDIV_M => do
      let x ← loadM config s ibc
      let x := maskRegisterExponentMantissa program (.cvtPackedInt x)
      modifyF s ibc (VecF.map₂ (Fpu.div s.rounding) · x)
  | .FSQRT_R => modifyF s ibc fun d => ⟨Fpu.sqrt s.rounding d.lo, Fpu.sqrt s.rounding d.hi⟩
  | .CFROUND => do
      let x ← isrc s ibc
      pure { s with rounding := .ofNat 4 (rotr64 x (ibc.imm.toUInt32.toUInt64)).toNat }
  | .ISTORE => do
      let x ← isrc s ibc
      let d ← idst ibc
      store64 config s ((s.r d + ibc.imm) &&& ibc.memMask.toUInt64).toNat x
  | .NOP => pure s
  | .CBRANCH | .IMUL_RCP => .error .unreachable

/-- `executeInstruction`. -/
def executeInstruction (pc : Int) : Except RxFault (State × Int) :=
  if ibc.type = .CBRANCH then do
    let d ← idst ibc
    let s := setR s d (s.r d + ibc.imm)
    pure (s, if s.r d &&& ibc.memMask.toUInt64 = 0 then ibc.word.toInt16.toInt else pc)
  else do
    let s ← executePlain config s ibc program
    pure (s, pc)

variable (bytecode : Nat → InstructionByteCode)

/-- The loop of `executeBytecode` from `pc` on, for some number of instructions at most. -/
def executeBytecode : (fuel : Nat) → (pc : Int) → State → Except RxFault State
  | 0, _, _ => .error .endless
  | fuel + 1, pc, s =>
      if pc < config.programSize then
        if 0 ≤ pc then do
          let (s, pc) ← executeInstruction config s (bytecode pc.toNat) program pc
          executeBytecode fuel (pc + 1) s
        else .error .pc
      else .ok s

end

end BytecodeMachine

end XLArig
