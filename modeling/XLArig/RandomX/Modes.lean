import XLArig.RandomX.Interpreter

/-!
# XLArig.RandomX.Modes

A run of a machine without a compiler, from the seed on: it meets no fault and does not use what
the run before has left (`run_safe`), and is the same with a dataset and with the cache that the
dataset was made from (`fast_eq_light`).
-/

namespace XLArig

attribute [local instance] neZero_registersCount neZero_registerCountFlt neZero_entropyCount
  neZero_blockSize

namespace InterpretedVm

open BytecodeMachine

/-! ## What a run before has left -/

section

variable [Fpu] {config : Configuration}

/-- Two instructions are executed alike. -/
def Alike (config : Configuration) (a b : InstructionByteCode) : Prop :=
  ∀ program s pc, executeInstruction config s a program pc = executeInstruction config s b program pc

/-- What an instruction is compiled to does what it does whatever was there before. -/
theorem alike_compileType (config : Configuration) (a b : InstructionByteCode) (instr : Instruction)
    (n : Nat) (usage : Usage) (type : InstructionType) :
    (compileType config instr n usage a type).1 = (compileType config instr n usage b type).1 ∧
      Alike config (compileType config instr n usage a type).2
        (compileType config instr n usage b type).2 := by
  cases type with
  | ISUB_R | IMUL_R | IXOR_R | IROR_R | IROL_R =>
      refine ⟨rfl, fun program s pc => ?_⟩
      simp only [compileType, compileR]
      split <;> simp [executeInstruction, executePlain, isrc, idst, modifyR]
  | IADD_M | ISUB_M | IMUL_M | IMULH_M | ISMULH_M | IXOR_M =>
      refine ⟨rfl, fun program s pc => ?_⟩
      simp only [compileType, compileM]
      split <;> simp [executeInstruction, executePlain, loadM, isrc, idst, modifyR]
  | IMUL_RCP | ISWAP_R =>
      simp only [compileType]
      split <;> refine ⟨rfl, fun program s pc => ?_⟩ <;>
        simp [executeInstruction, executePlain, isrc, idst, modifyR]
  | IADD_RS | IMULH_R | ISMULH_R | INEG_R | CBRANCH | CFROUND | ISTORE | NOP =>
      refine ⟨rfl, fun program s pc => ?_⟩
      simp [compileType, executeInstruction, executePlain, isrc, idst, modifyR]
  | FSWAP_R =>
      refine ⟨rfl, fun program s pc => ?_⟩
      simp [compileType, executeInstruction, executePlain, modifyF]
  | FADD_M | FSUB_M | FDIV_M =>
      refine ⟨rfl, fun program s pc => ?_⟩
      simp [compileType, compileFltM, executeInstruction, executePlain, loadM, isrc, modifyF]
  | FADD_R | FSUB_R | FMUL_R | FSCAL_R | FSQRT_R =>
      refine ⟨rfl, fun program s pc => ?_⟩
      simp [compileType, executeInstruction, executePlain, fsrc, modifyF]

theorem alike_compileProgram {p p' : Nat → Instruction} {c code : Nat → InstructionByteCode}
    (c' : Nat → InstructionByteCode) {usage : Usage} {n : Nat} (hp : ∀ i < n, p i = p' i)
    (h : compileProgram config p c n = .ok (usage, code)) :
    ∃ code', compileProgram config p' c' n = .ok (usage, code') ∧
      ∀ i < n, Alike config (code i) (code' i) := by
  induction n generalizing usage code with
  | zero =>
      simp only [compileProgram, Except.ok.injEq, Prod.mk.injEq] at h
      exact ⟨c', by simp [compileProgram, h.1], fun i hi => absurd hi (Nat.not_lt_zero i)⟩
  | succ n ih =>
      rw [compileProgram] at h ⊢
      cases hprev : compileProgram config p c n with
      | error e => simp [hprev, bind, Except.bind] at h
      | ok x =>
          obtain ⟨usage₀, code₀⟩ := x
          obtain ⟨code₁, hcode₁, halike⟩ := ih (fun i hi => hp i (by omega)) hprev
          obtain ⟨type, htype⟩ := exists_decode config (p n).opcode
          have htype' : decode config InstructionType.all (p' n).opcode.toNat = some type := by
            rw [← hp n (Nat.lt_succ_self n)]
            exact htype
          simp only [hprev, hcode₁, compileInstruction, htype, htype', bind, Except.bind, pure,
            Except.pure, Except.ok.injEq, Prod.mk.injEq] at h ⊢
          obtain ⟨rfl, rfl⟩ := h
          obtain ⟨hsame, hnew⟩ := alike_compileType config (code₀ n) (code₁ n) (p n) n usage₀ type
          rw [← hp n (Nat.lt_succ_self n)]
          refine ⟨_, ⟨hsame.symm, rfl⟩, fun i hi => ?_⟩
          obtain rfl | hi' := Nat.eq_or_lt_of_le (Nat.le_of_lt_succ hi)
          · rwa [Function.update_self, Function.update_self]
          · rw [Function.update_of_ne hi'.ne, Function.update_of_ne hi'.ne]
            exact halike i hi'

theorem alike_executeBytecode {code code' : Nat → InstructionByteCode}
    (halike : ∀ i < config.programSize, Alike config (code i) (code' i))
    (program : ProgramConfiguration) (fuel : Nat) (pc : Int) (s : State) :
    executeBytecode config program code fuel pc s =
      executeBytecode config program code' fuel pc s := by
  induction fuel generalizing pc s with
  | zero => rfl
  | succ fuel ih =>
      simp only [executeBytecode, ih]
      by_cases hend : pc < config.programSize
      · by_cases hpc : 0 ≤ pc
        · rw [halike pc.toNat (by omega)]
        · simp only [hpc, if_false]
      · simp only [hend, if_false]

end

section

variable [AesUnit] {config : Configuration} {softAes : Bool}

/-- A program is generated as far as it is used. -/
theorem wordAt_generateProgram (seed : Block) (left left' : Nat → Block) {k : Nat}
    (hk : k < 16 + config.programSize) :
    wordAt (generateProgram config softAes seed left) k =
      wordAt (generateProgram config softAes seed left') k := by
  have hsize : 64 ∣ 128 + config.programSize * 8 := by cases config <;> decide
  have hblock : ∀ left : Nat → Block, generateProgram config softAes seed left (k / 8) =
      (fillState4 config (if softAes then 1 else 0))^[k / 8 + 1] seed := fun left => by
    generalize hgen : fillState4 config (if softAes then 1 else 0) = gen
    have hsweep : ∃ i, Pass.At (fun _ _ => ()) gen id ⟨left, (), seed⟩ i
        ((128 + config.programSize * 8) / 64)
        (sweep 64 (fun p x => x.write gen id (p / 64)) (128 + config.programSize * 8) 0
          ⟨left, (), seed⟩).2 := by
      refine (sweep_rule (P := fun p x =>
        ∃ i, Pass.At (fun _ _ => ()) gen id ⟨left, (), seed⟩ i (p / 64) x) hsize
        (Nat.zero_le _) ⟨0, .start⟩ ?_).2
      rintro p x _ _ ⟨i, hat⟩
      have hnext : (p + 64) / 64 = p / 64 + 1 := by omega
      rw [hnext]
      exact ⟨i, hat.write⟩
    obtain ⟨i, hat⟩ := hsweep
    unfold generateProgram fillAes4Rx4
    rw [hgen, hat.mem]
    exact overwrite_apply (by omega)
  rw [wordAt, wordAt, hblock, hblock]

theorem generateProgram_left (config : Configuration) (softAes : Bool) (seed : Block)
    (left left' : Nat → Block) :
    vmInitialize config (generateProgram config softAes seed left) =
        vmInitialize config (generateProgram config softAes seed left') ∧
      ∀ i < config.programSize, instruction (generateProgram config softAes seed left) i =
        instruction (generateProgram config softAes seed left') i := by
  have hentropy : ∀ i : Fin 16, getEntropy (generateProgram config softAes seed left) i =
      getEntropy (generateProgram config softAes seed left') i :=
    fun i => wordAt_generateProgram seed left left' (by omega)
  refine ⟨?_, fun i hi => ?_⟩
  · simp only [vmInitialize, hentropy]
  · rw [instruction, instruction, wordAt_generateProgram seed left left' (by omega)]

end

/-! ## Addresses -/

section

variable {config : Configuration}

/-- The address of a line below a size. -/
def Line (size : Nat) (addr : UInt32) : Prop := addr.toNat % 64 = 0 ∧ addr.toNat + 64 ≤ size

theorem line_and {mask : UInt32} {size : Nat} (hline : mask.toNat % 64 = 0)
    (hle : mask.toNat + 64 ≤ size) (x : UInt32) : Line size (x &&& mask) := by
  have hand : (x &&& mask).toNat ≤ mask.toNat := by
    rw [UInt32.toNat_and]
    exact Nat.and_le_right
  refine ⟨?_, by omega⟩
  rw [UInt32.toNat_and, Nat.and_mod_two_pow (n := 6)]
  change _ &&& mask.toNat % 64 = 0
  rw [hline, Nat.and_zero]

theorem line_scratchpad (config : Configuration) (x : UInt32) :
    Line config.scratchpadSize (x &&& config.scratchpadL3Mask64) := by
  cases config <;> exact line_and (by decide) (by decide) x

theorem line_dataset (config : Configuration) (x : UInt32) :
    Line config.datasetBaseSize (x &&& config.cacheLineAlignMask) := by
  cases config <;> exact line_and (by decide) (by decide) x

theorem load8_line {addr : UInt32} (h : Line config.scratchpadSize addr) (s : State) :
    load8 config s addr = .ok fun i => s.scratchpad (addr.toNat / 8 + i) :=
  if_pos ⟨by have := h.1; omega, h.2⟩

theorem sure_store8 {addr : UInt32} (h : Line config.scratchpadSize addr) (s : State) (x : Words8) :
    (store8 config s addr x).Sure fun _ => True := by
  rw [store8, if_pos ⟨by have := h.1; omega, h.2⟩]
  trivial

/-- What is read is the items, as far as there are some. -/
def Reads (config : Configuration) (datasetRead : UInt64 → Except RxFault Words8)
    (item : Nat → Words8) : Prop :=
  ∀ k < config.datasetItemCount, ∀ address : UInt64, address.toNat = 64 * k →
    datasetRead address = .ok (item k)

theorem reads_dataset {items item : Nat → Words8}
    (h : ∀ k < config.datasetItemCount, items k = item k) :
    Reads config ((Memory.dataset items).datasetRead config) item := by
  intro k hk address haddress
  have hsize : 64 * config.datasetItemCount ≤ config.datasetSize := Nat.mul_div_le _ _
  have hindex : address.toNat / 64 = k := by omega
  simp only [Memory.datasetRead]
  rw [if_pos (by omega), hindex, h k hk]

theorem reads_cache {cache : RandomxCache} {item : Nat → Words8}
    (h : ∀ k < config.datasetItemCount,
      Superscalar.initDatasetItem config cache (.ofNat k) = .ok (item k)) :
    Reads config ((Memory.cache cache).datasetRead config) item := by
  intro k hk address haddress
  have hcount : config.datasetItemCount ≤ 2 ^ 32 := by cases config <;> decide
  have hindex : (address / 64).toUInt32.toUInt64 = .ofNat k := by
    apply UInt64.toNat_inj.mp
    have hline : (64 : UInt64).toNat = 64 := rfl
    rw [UInt32.toNat_toUInt64, UInt64.toNat_toUInt32, UInt64.toNat_div, haddress,
      UInt64.toNat_ofNat', hline]
    omega
  simp only [Memory.datasetRead]
  rw [hindex, h k hk]

end

/-! ## The run -/

section

variable {config : Configuration} {vm : Initial} {code : Nat → InstructionByteCode}

/-- Where the lines of the dataset begin. -/
def Offset (vm : Initial) : Prop := ∃ k ≤ 524287, vm.datasetOffset.toNat = 64 * k

/-- The address of a line of the base is, with the offset, the address of an item. -/
theorem exists_item (hoffset : Offset vm) {ma : UInt32} (hma : Line config.datasetBaseSize ma) :
    ∃ k < config.datasetItemCount, (vm.datasetOffset + ma.toUInt64).toNat = 64 * k := by
  obtain ⟨k, hk, hoffset⟩ := hoffset
  obtain ⟨hline, hle⟩ := hma
  have hbase : config.datasetBaseSize ≤ 2 ^ 31 := by cases config <;> decide
  have hcount : config.datasetItemCount = (config.datasetBaseSize + 33554368) / 64 := rfl
  refine ⟨k + ma.toNat / 64, by omega, ?_⟩
  rw [UInt64.toNat_add, UInt32.toNat_toUInt64, hoffset]
  omega

variable [Fpu]

/-- One turn meets no fault, and does not depend on where the items come from. -/
theorem iteration_ok {x : Loop} (hx : Line config.datasetBaseSize x.ma) (hoffset : Offset vm)
    (hcompiled : Compiled config code config.programSize) (item : Nat → Words8) :
    ∃ x', Line config.datasetBaseSize x'.ma ∧ ∀ datasetRead code',
      Reads config datasetRead item → (∀ i < config.programSize, Alike config (code i) (code' i)) →
      iteration config datasetRead vm code' x = .ok x' := by
  obtain ⟨k, hk, haddress⟩ := exists_item hoffset hx
  have h0 := line_scratchpad config
    (x.spAddr0 ^^^ (x.s.r vm.program.readReg0 ^^^ x.s.r vm.program.readReg1).toUInt32)
  have h1 := line_scratchpad config
    (x.spAddr1 ^^^ ((x.s.r vm.program.readReg0 ^^^ x.s.r vm.program.readReg1) >>> 32).toUInt32)
  unfold iteration
  dsimp only
  generalize (x.spAddr0 ^^^ _) &&& config.scratchpadL3Mask64 = spAddr0 at h0 ⊢
  generalize (x.spAddr1 ^^^ _) &&& config.scratchpadL3Mask64 = spAddr1 at h1 ⊢
  simp only [load8_line h0, load8_line h1, bind, Except.bind]
  obtain ⟨s₁, hexec⟩ := executeBytecode_of_compiled hcompiled vm.program
    { x.s with
      r := fun i => x.s.r i ^^^ x.s.scratchpad (spAddr0.toNat / 8 + i)
      f := fun i => .cvtPackedInt (x.s.scratchpad (spAddr1.toNat / 8 + (Fin.ofNat 8 i : Fin 8)))
      e := fun i => maskRegisterExponentMantissa vm.program
        (.cvtPackedInt (x.s.scratchpad (spAddr1.toNat / 8 + (Fin.ofNat 8 (4 + i) : Fin 8)))) }
  obtain ⟨s₂, hstore₁, -⟩ := Except.sure_iff.mp
    (sure_store8 h1 { s₁ with r := fun i => s₁.r i ^^^ item k i } fun i => s₁.r i ^^^ item k i)
  obtain ⟨s₃, hstore₀, -⟩ := Except.sure_iff.mp
    (sure_store8 h0 { s₂ with f := fun i => (s₂.f i).xor (s₂.e i) }
      (wordsF fun i => (s₂.f i).xor (s₂.e i)))
  refine ⟨⟨s₃, 0, 0, x.ma, _⟩, line_dataset config
    (x.mx ^^^ (s₁.r vm.program.readReg2 ^^^ s₁.r vm.program.readReg3).toUInt32),
    fun datasetRead code' hreads halike => ?_⟩
  rw [← alike_executeBytecode halike, hexec _ (Nat.lt_succ_self _)]
  simp only [hreads k hk _ haddress, hstore₁, hstore₀]
  rfl

theorem iterations_ok {x : Loop} (hx : Line config.datasetBaseSize x.ma) (hoffset : Offset vm)
    (hcompiled : Compiled config code config.programSize) (item : Nat → Words8) (n : Nat) :
    ∃ x', ∀ datasetRead code',
      Reads config datasetRead item → (∀ i < config.programSize, Alike config (code i) (code' i)) →
      iterations config datasetRead vm code' n x = .ok x' := by
  induction n generalizing x with
  | zero => exact ⟨x, fun _ _ _ _ => rfl⟩
  | succ n ih =>
      obtain ⟨x₁, hline, hone⟩ := iteration_ok hx hoffset hcompiled item
      obtain ⟨x₂, hrest⟩ := ih hline
      refine ⟨x₂, fun datasetRead code' hreads halike => ?_⟩
      rw [iterations, hone datasetRead code' hreads halike]
      exact hrest datasetRead code' hreads halike

end

theorem vmInitialize_spec (config : Configuration) (program : Nat → Block) :
    Line config.datasetBaseSize (vmInitialize config program).ma ∧ Offset (vmInitialize config program) := by
  refine ⟨line_dataset config _, (getEntropy program 13).toNat % 524288, by omega, ?_⟩
  have hoffset : (vmInitialize config program).datasetOffset =
      (getEntropy program 13 % (524287 + 1)) * 64 := rfl
  have hitems : (524287 + 1 : UInt64).toNat = 524288 := rfl
  have hline : (64 : UInt64).toNat = 64 := rfl
  rw [hoffset, UInt64.toNat_mul, UInt64.toNat_mod, hitems, hline]
  omega

variable [AesUnit] [Fpu]

/-- What a run leaves depends on the items of the dataset, but neither on where they come from, nor
on the program and the bytecode of the run before. -/
theorem run_ok (config : Configuration) (softAes : Bool) (item : Nat → Words8)
    (scratchpad : Nat → UInt64) (seed : Block) (rounding : Fin 4) :
    ∃ x, ∀ datasetRead left, Reads config datasetRead item →
      ∃ left', run config softAes datasetRead left scratchpad seed rounding = .ok (x, left') := by
  let left₀ : Leftover := ⟨fun _ => .ofWords fun _ => 0, fun _ => ⟨.zero, .zero, 0, .NOP, 0, 0⟩⟩
  let program := generateProgram config softAes seed left₀.program
  let vm := vmInitialize config program
  obtain ⟨hline, hoffset⟩ := vmInitialize_spec config program
  have hsize : config.programSize ≤ 256 := by cases config <;> decide
  obtain ⟨⟨usage, code⟩, hcompile, htracks⟩ :=
    Except.sure_iff.mp (sure_compileProgram config (instruction program) left₀.bytecode hsize)
  obtain ⟨x, hx⟩ := iterations_ok
    (x := ⟨⟨fun _ => 0, fun _ => ⟨0, 0⟩, fun _ => ⟨0, 0⟩, vm.a, scratchpad, rounding⟩,
      vm.mx, vm.ma, vm.mx, vm.ma⟩) hline hoffset htracks.compiled item config.programIterations
  refine ⟨finish vm x, fun datasetRead left hreads => ?_⟩
  obtain ⟨hinitial, hinstr⟩ := generateProgram_left config softAes seed left.program
    left₀.program
  have hinstr' : ∀ i < config.programSize, instruction program i =
      instruction (generateProgram config softAes seed left.program) i :=
    fun i hi => (hinstr i hi).symm
  obtain ⟨code', hcompile', halike⟩ := alike_compileProgram left.bytecode hinstr' hcompile
  refine ⟨⟨generateProgram config softAes seed left.program, code'⟩, ?_⟩
  unfold run
  dsimp only
  rw [hinitial, hcompile']
  simp only [bind, Except.bind]
  rw [hx datasetRead code' hreads halike]
  rfl

/-! ## The hash -/

/-- The words of the blocks of a scratchpad, and the other way round. -/
def scratchpadWords {n : Nat} (blocks : Fin n → Block) (k : Nat) : UInt64 :=
  if h : k / 8 < n then (blocks ⟨k / 8, h⟩).words (.ofNat 8 k) else 0

def scratchpadBlocks (n : Nat) (words : Nat → UInt64) (i : Fin n) : Block :=
  .ofWords fun q => words (8 * i + q)

/-- How a machine without a compiler is set up. -/
structure RxSetup where
  softAes : Bool
  memory : Memory

/-- A run of the machine, as far as a hash sees it. -/
def runBlocks (config : Configuration) (setup : RxSetup)
    (scratchpad : Fin (config.scratchpadSize / 64) → Block) (seed : Block) (rounding : Fin 4) :
    (Fin (config.scratchpadSize / 64) → Block) × RegisterFile × Fin 4 :=
  let zero : Block := .ofWords fun _ => 0
  let left : Leftover := ⟨fun _ => zero, fun _ => ⟨.zero, .zero, 0, .NOP, 0, 0⟩⟩
  match run config setup.softAes (setup.memory.datasetRead config) left (scratchpadWords scratchpad)
    seed rounding with
  | .ok ((words, reg, rounding), _) => (scratchpadBlocks _ words, reg, rounding)
  | .error _ => (scratchpad, ⟨zero, zero, zero, zero⟩, rounding)

/-- The machine without a compiler executes the programs of a hash. -/
@[reducible]
def rxFunctions (blake2b yespowerK12 : Nat → List UInt8 → List UInt8) : RxFunctions where
  blake2b := blake2b
  yespowerK12 := yespowerK12
  Rounding := Fin 4
  nearest := 0
  Setup := RxSetup
  run := runBlocks

/-- Where the items come from does not matter. -/
theorem runBlocks_congr {config : Configuration} {softAes : Bool} {memory memory' : Memory}
    {item : Nat → Words8} (h : Reads config (memory.datasetRead config) item)
    (h' : Reads config (memory'.datasetRead config) item) :
    runBlocks config ⟨softAes, memory⟩ = runBlocks config ⟨softAes, memory'⟩ := by
  funext scratchpad seed rounding
  obtain ⟨x, hx⟩ := run_ok config softAes item (scratchpadWords scratchpad) seed rounding
  obtain ⟨_, hleft⟩ := hx _ _ h
  obtain ⟨_, hleft'⟩ := hx _ _ h'
  unfold runBlocks
  dsimp only
  rw [hleft, hleft']

/-- The item that a cache makes. -/
def itemOf (config : Configuration) (cache : RandomxCache) (k : Nat) : Words8 :=
  match Superscalar.initDatasetItem config cache (.ofNat k) with
  | .ok item => item
  | .error _ => fun _ => 0

omit [AesUnit] [Fpu] in
theorem initDatasetItem_eq (config : Configuration) (cache : RandomxCache) (k : Nat) :
    Superscalar.initDatasetItem config cache (.ofNat k) = .ok (itemOf config cache k) := by
  obtain ⟨item, hitem, -⟩ :=
    Except.sure_iff.mp (Superscalar.initDatasetItem_sure config cache (.ofNat k))
  rw [itemOf, hitem]

/-- The items that a machine reads. -/
def Memory.items (config : Configuration) : Memory → Nat → Words8
  | .dataset items => items
  | .cache c => itemOf config c

omit [AesUnit] [Fpu] in
theorem reads_items (config : Configuration) (memory : Memory) :
    Reads config (memory.datasetRead config) (memory.items config) := by
  cases memory with
  | dataset items => exact reads_dataset fun _ _ => rfl
  | cache c => exact reads_cache fun k _ => initDatasetItem_eq config c k

/-- **A run meets no fault**: no program, whatever the seed, leaves the scratchpad, the dataset or
the cache, or goes on for ever.  What the run before has left in the machine is not used. -/
theorem run_safe (config : Configuration) (softAes : Bool) (memory : Memory)
    (scratchpad : Nat → UInt64) (seed : Block) (rounding : Fin 4) :
    ∃ x, ∀ left, ∃ left',
      run config softAes (memory.datasetRead config) left scratchpad seed rounding =
        .ok (x, left') := by
  obtain ⟨x, hx⟩ := run_ok config softAes (memory.items config) scratchpad seed rounding
  exact ⟨x, fun left => hx _ left (reads_items config memory)⟩

open DatasetInit in
/-- **With a dataset and without one, the same hashes.**  The dataset is what any number of
threads leaves that share its items and store them in any order. -/
theorem fast_eq_light (blake2b yespowerK12 : Nat → List UInt8 → List UInt8)
    (config : Configuration) (softAes : Bool) (cache : RandomxCache) (avx2 : Bool) {threads : Nat}
    (hthreads : 0 < threads) (hfives : 5 * threads ≤ config.datasetItemCount)
    (old : Nat → Words8) (order : List Nat)
    (horder : order.Perm (stores (init avx2 config.datasetItemCount threads))) :
    let _ : RxFunctions := rxFunctions blake2b yespowerK12
    let dataset := fill (itemOf config cache) old order
    let fast : VmSetup := ⟨config, ⟨softAes, .dataset dataset⟩, softAes⟩
    let light : VmSetup := ⟨config, ⟨softAes, .cache cache⟩, softAes⟩
    ∀ (vm : Vm) (x : Vm.Input), vm.calculateHash fast x = vm.calculateHash light x := by
  intro _ dataset fast light vm x
  have hcount : config.datasetItemCount < 2 ^ 26 := by cases config <;> decide
  have hdataset : ∀ k < config.datasetItemCount, dataset k = itemOf config cache k := by
    intro k hk
    have hmem : k ∈ order := horder.mem_iff.mpr
      ((mem_stores_init (by omega) (by nlinarith) hthreads hfives).mpr hk)
    simp only [dataset, fill_eq, hmem, if_true]
  have hrun : RxFunctions.run fast.config fast.setup = RxFunctions.run light.config light.setup :=
    runBlocks_congr (reads_dataset hdataset)
      (reads_cache fun k _ => initDatasetItem_eq config cache k)
  have hvm : ∀ (vm : Vm) seed, vm.run fast seed = vm.run light seed := fun vm seed => by
    unfold Vm.run
    rw [hrun]
  have hchain : ∀ n (y : Vm × Block), Vm.chain fast n y = Vm.chain light n y := by
    intro n
    induction n with
    | zero => exact fun _ => rfl
    | succ n ih =>
        rintro ⟨vm, tempHash⟩
        simp only [Vm.chain, hvm, ih]
  simp only [Vm.calculateHash, Vm.programs, hchain, hvm]
  rfl

/-- Units for a run on concrete inputs. -/
@[reducible]
def exampleAes : AesUnit where
  aesenc := Vec.xor
  aesdec := Vec.xor
  lutEnc0 := UInt8.toUInt32
  lutEnc1 := UInt8.toUInt32
  lutEnc2 := UInt8.toUInt32
  lutEnc3 := UInt8.toUInt32
  lutDec0 := UInt8.toUInt32
  lutDec1 := UInt8.toUInt32
  lutDec2 := UInt8.toUInt32
  lutDec3 := UInt8.toUInt32

@[reducible]
def exampleFpu : Fpu where
  add _ := (· + ·)
  sub _ := (· - ·)
  mul _ := (· * ·)
  div _ := (· / ·)
  sqrt _ := id
  ofInt32 := UInt32.toUInt64

def exampleCache : RandomxCache := ⟨fun _ _ => 0, fun _ => ⟨[], 0, Superscalar.valid_nil⟩⟩

omit [AesUnit] [Fpu] in
open DatasetInit in
/-- Two threads share the items of Scala. -/
theorem fast_eq_light_scala :
    let _ := exampleAes
    let _ := exampleFpu
    let _ : RxFunctions := rxFunctions (fun n x => x.take n) fun n x => x.take n
    let order := stores (init true Configuration.Scala.datasetItemCount 2)
    let dataset := fill (itemOf .Scala exampleCache) (fun _ _ => 0) order
    let fast : VmSetup := ⟨.Scala, ⟨true, .dataset dataset⟩, true⟩
    let light : VmSetup := ⟨.Scala, ⟨true, .cache exampleCache⟩, true⟩
    ∀ (vm : Vm) (x : Vm.Input), vm.calculateHash fast x = vm.calculateHash light x :=
  @fast_eq_light exampleAes exampleFpu _ _ .Scala true exampleCache true 2 (by decide) (by decide) _ _
    (List.Perm.refl _)

end InterpretedVm

end XLArig
