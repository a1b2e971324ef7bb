import XLArig.RandomX.Bytecode

/-!
# XLArig.RandomX.Superscalar

`executeSuperscalar` and `initDatasetItem` of `crypto/randomx`: what an item of a dataset is made
of.

A program and a cache carry that they are well-formed, and so an item can be computed
(`initDatasetItem_sure`).
-/

namespace XLArig

attribute [local instance] neZero_registersCount neZero_registerCountFlt neZero_entropyCount

namespace Configuration

/-- `ArgonMemory`. -/
def argonMemory : Configuration → Nat
  | Scala => 131072
  | _ => 262144

/-- `CacheAccesses`. -/
def cacheAccesses : Configuration → Nat
  | Scala => 2
  | _ => 8

end Configuration

/-- `SuperscalarInstructionType`, less its two markers. -/
inductive SuperscalarInstructionType
  | ISUB_R
  | IXOR_R
  | IADD_RS
  | IMUL_R
  | IROR_C
  | IADD_C7
  | IXOR_C7
  | IADD_C8
  | IXOR_C8
  | IADD_C9
  | IXOR_C9
  | IMULH_R
  | ISMULH_R
  | IMUL_RCP
  deriving DecidableEq, Repr

/-- The numbers of the types. -/
def SuperscalarInstructionType.all : List SuperscalarInstructionType :=
  [ISUB_R, IXOR_R, IADD_RS, IMUL_R, IROR_C, IADD_C7, IXOR_C7, IADD_C8, IXOR_C8, IADD_C9, IXOR_C9,
    IMULH_R, ISMULH_R, IMUL_RCP]

/-- Eight registers, a block of the cache or an item of the dataset. -/
abbrev Words8 := Fin 8 → UInt64

namespace Superscalar

open SuperscalarInstructionType Portable

/-- The register of a number. -/
def register (i : UInt8) : Except RxFault (Fin 8) :=
  if h : i.toNat < 8 then .ok ⟨i.toNat, h⟩ else .error .pointer

/-- `r[instr.dst]` is changed, with `r[instr.src]` at hand. -/
def withSource (r : Words8) (instr : Instruction) (op : UInt64 → UInt64 → UInt64) :
    Except RxFault Words8 := do
  let d ← register instr.dst
  let s ← register instr.src
  pure (Function.update r d (op (r d) (r s)))

/-- `r[instr.dst]` is changed. -/
def withImm (r : Words8) (instr : Instruction) (op : UInt64 → UInt64) : Except RxFault Words8 := do
  let d ← register instr.dst
  pure (Function.update r d (op (r d)))

/-- One turn of the loop of `executeSuperscalar`. -/
def executeInstruction (r : Words8) (instr : Instruction) : Except RxFault Words8 :=
  match SuperscalarInstructionType.all[instr.opcode.toNat]? with
  | some ISUB_R => withSource r instr (· - ·)
  | some IXOR_R => withSource r instr (· ^^^ ·)
  | some IADD_RS => withSource r instr fun d s => d + s <<< instr.getModShift.toUInt64
  | some IMUL_R => withSource r instr (· * ·)
  | some IROR_C =>
      if instr.imm32 < 64 then withImm r instr (rotr64 · instr.imm32.toUInt64)
      else .error .shift
  | some IADD_C7 | some IADD_C8 | some IADD_C9 =>
      withImm r instr (· + signExtend2sCompl instr.imm32)
  | some IXOR_C7 | some IXOR_C8 | some IXOR_C9 =>
      withImm r instr (· ^^^ signExtend2sCompl instr.imm32)
  | some IMULH_R => withSource r instr mulh
  | some ISMULH_R => withSource r instr smulh
  | some IMUL_RCP =>
      if instr.imm32 = 0 then .error .division
      else withImm r instr (· * reciprocal instr.imm32.toUInt64)
  | none => .error .unreachable

/-- What an instruction is to be. -/
structure Valid (instr : Instruction) : Prop where
  opcode : instr.opcode.toNat < SuperscalarInstructionType.all.length
  dst : instr.dst.toNat < 8
  src : instr.src.toNat < 8
  rotation : SuperscalarInstructionType.all[instr.opcode.toNat]? = some IROR_C → instr.imm32 < 64
  divisor : SuperscalarInstructionType.all[instr.opcode.toNat]? = some IMUL_RCP → instr.imm32 ≠ 0

end Superscalar

theorem Superscalar.valid_nil : ∀ instr ∈ ([] : List Instruction), Superscalar.Valid instr := by simp

/-- `SuperscalarProgram`, as far as it is executed. -/
structure SuperscalarProgram where
  code : List Instruction
  addressRegister : Fin 8
  valid : ∀ instr ∈ code, Superscalar.Valid instr

/-- `randomx_cache`: its blocks, of which the configuration says how many there are, and its
programs. -/
structure RandomxCache where
  memory : Nat → Words8
  programs : Fin 16 → SuperscalarProgram

namespace Superscalar

/-- `executeSuperscalar`. -/
def executeSuperscalar (r : Words8) (prog : SuperscalarProgram) : Except RxFault Words8 :=
  prog.code.foldlM executeInstruction r

def superscalarMul0 : UInt64 := 6364136223846793005

/-- `superscalarAdd1` to `superscalarAdd7`, with zero before them. -/
def superscalarAdd : Fin 8 → UInt64 :=
  ![0, 9298411001130361340, 12065312585734608966, 9306329213124626780, 5281919268842080866,
    10536153434571861004, 3398623926847679864, 9549104520008361294]

/-- `getMixBlock`, and the words there. -/
def mixBlock (config : Configuration) (cache : RandomxCache) (registerValue : UInt64) :
    Except RxFault Words8 :=
  let mask : UInt32 := .ofNat (config.argonMemory * 1024 / 64 - 1)
  let block := (registerValue &&& mask.toUInt64).toNat
  if block * 64 + 64 ≤ config.argonMemory * 1024 then .ok (cache.memory block)
  else .error .cache

/-- The loop of `initDatasetItem` from `i` on. -/
def mixLoop (config : Configuration) (cache : RandomxCache) (i : Nat) :
    (n : Nat) → (registerValue : UInt64) → Words8 → Except RxFault Words8
  | 0, _, rl => .ok rl
  | n + 1, registerValue, rl => do
      let mix ← mixBlock config cache registerValue
      let prog := cache.programs (.ofNat 16 i)
      let rl ← executeSuperscalar rl prog
      let rl : Words8 := fun q => rl q ^^^ mix q
      mixLoop config cache (i + 1) n (rl prog.addressRegister) rl

/-- `initDatasetItem`. -/
def initDatasetItem (config : Configuration) (cache : RandomxCache) (itemNumber : UInt64) :
    Except RxFault Words8 :=
  let rl0 := (itemNumber + 1) * superscalarMul0
  mixLoop config cache 0 config.cacheAccesses itemNumber fun q => rl0 ^^^ superscalarAdd q

/-! ## An item can be computed -/

variable {config : Configuration} {r : Words8} {instr : Instruction}

theorem sure_register {i : UInt8} (h : i.toNat < 8) : (register i).Sure fun _ => True := by
  rw [register, dif_pos h]
  trivial

theorem sure_withSource (h : Valid instr) (op : UInt64 → UInt64 → UInt64) :
    (withSource r instr op).Sure fun _ => True :=
  (sure_register h.dst).bind fun _ _ => (sure_register h.src).bind fun _ _ => trivial

theorem sure_withImm (h : Valid instr) (op : UInt64 → UInt64) :
    (withImm r instr op).Sure fun _ => True :=
  (sure_register h.dst).bind fun _ _ => trivial

theorem sure_executeInstruction (h : Valid instr) (r : Words8) :
    (executeInstruction r instr).Sure fun _ => True := by
  obtain ⟨type, htype⟩ : ∃ type, SuperscalarInstructionType.all[instr.opcode.toNat]? = some type :=
    ⟨_, List.getElem?_eq_getElem h.opcode⟩
  have hrotation := h.rotation
  have hdivisor := h.divisor
  rw [executeInstruction]
  rw [htype] at hrotation hdivisor ⊢
  cases type with
  | IROR_C =>
      dsimp only
      rw [if_pos (hrotation rfl)]
      exact sure_withImm h _
  | IMUL_RCP =>
      dsimp only
      rw [if_neg (hdivisor rfl)]
      exact sure_withImm h _
  | ISUB_R | IXOR_R | IADD_RS | IMUL_R | IMULH_R | ISMULH_R => exact sure_withSource h _
  | IADD_C7 | IADD_C8 | IADD_C9 | IXOR_C7 | IXOR_C8 | IXOR_C9 => exact sure_withImm h _

theorem sure_executeSuperscalar (prog : SuperscalarProgram) (r : Words8) :
    (executeSuperscalar r prog).Sure fun _ => True := by
  have hvalid := prog.valid
  unfold executeSuperscalar
  generalize prog.code = code at hvalid ⊢
  induction code generalizing r with
  | nil => trivial
  | cons instr code ih =>
      rw [List.foldlM_cons]
      refine (sure_executeInstruction (hvalid instr List.mem_cons_self) r).bind fun r _ => ?_
      exact ih r fun instr h => hvalid instr (List.mem_cons_of_mem _ h)

theorem sure_mixBlock (config : Configuration) (cache : RandomxCache) (registerValue : UInt64) :
    (mixBlock config cache registerValue).Sure fun _ => True := by
  have hle : ∀ mask : UInt32, (registerValue &&& mask.toUInt64).toNat ≤ mask.toNat := fun mask => by
    rw [UInt64.toNat_and, UInt32.toNat_toUInt64]
    exact Nat.and_le_right
  have hmask := hle (.ofNat (config.argonMemory * 1024 / 64 - 1))
  unfold mixBlock
  dsimp only
  rw [if_pos]
  · trivial
  · generalize (registerValue &&& _).toNat = block at hmask ⊢
    cases config <;> simp [Configuration.argonMemory] at hmask ⊢ <;> omega

/-- No item meets a fault. -/
theorem initDatasetItem_sure (config : Configuration) (cache : RandomxCache) (itemNumber : UInt64) :
    (initDatasetItem config cache itemNumber).Sure fun _ => True := by
  have hloop : ∀ n i registerValue rl,
      (mixLoop config cache i n registerValue rl).Sure fun _ => True := by
    intro n
    induction n with
    | zero => exact fun _ _ _ => trivial
    | succ n ih =>
        intro i registerValue rl
        refine (sure_mixBlock config cache registerValue).bind fun mix _ => ?_
        exact (sure_executeSuperscalar _ rl).bind fun rl _ => ih _ _ _
  exact hloop _ _ _ _

end Superscalar

end XLArig
