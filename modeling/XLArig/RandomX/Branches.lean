import XLArig.RandomX.Bytecode

/-!
# XLArig.RandomX.Branches

Why a program of RandomX ends.

A branch goes back to the last instruction that wrote its register, and no branch lies between
(`Branch`).  So what it repeats does not write the register; between one branch and the next the
register has only the immediate added, and the immediate is made so that this leaves the
condition after two additions (`twice`).
-/

namespace XLArig

attribute [local instance] neZero_registersCount neZero_registerCountFlt neZero_entropyCount

namespace BytecodeMachine

open InstructionType

/-! ## Opcodes -/

variable {config : Configuration} {instr : Instruction} {usage : Usage} {ibc ibc' : InstructionByteCode}

theorem sum_le_of_decode {types : List InstructionType} {opcode : Nat}
    (h : decode config types opcode = none) : (types.map config.freq).sum ≤ opcode := by
  induction types generalizing opcode with
  | nil => exact Nat.zero_le _
  | cons type types ih =>
      rw [decode] at h
      split at h
      · contradiction
      · next hge =>
          have := ih h
          rw [List.map_cons, List.sum_cons]
          omega

theorem sum_freq (config : Configuration) : (all.map config.freq).sum = 256 := by
  cases config <;> decide

/-- The frequencies add up to 256, so an opcode has a type. -/
theorem exists_decode (config : Configuration) (opcode : UInt8) :
    ∃ type, decode config all opcode.toNat = some type := by
  cases h : decode config all opcode.toNat with
  | some type => exact ⟨type, rfl⟩
  | none =>
      have := sum_le_of_decode h
      have := opcode.toNat_lt
      have := sum_freq config
      omega

/-! ## Addresses -/

/-- What is masked is the address of a word of the scratchpad. -/
def Masked (config : Configuration) (mask : UInt32) : Prop :=
  ∀ x : UInt64, (x &&& mask.toUInt64).toNat % 8 = 0 ∧
    (x &&& mask.toUInt64).toNat + 8 ≤ config.scratchpadSize

theorem masked_of {mask : UInt32} (hword : mask.toNat % 8 = 0)
    (hle : mask.toNat + 8 ≤ config.scratchpadSize) : Masked config mask := by
  intro x
  have hand : (x &&& mask.toUInt64).toNat ≤ mask.toNat := by
    rw [UInt64.toNat_and, UInt32.toNat_toUInt64]
    exact Nat.and_le_right
  refine ⟨?_, by omega⟩
  rw [UInt64.toNat_and, UInt32.toNat_toUInt64, Nat.and_mod_two_pow (n := 3)]
  change _ &&& mask.toNat % 8 = 0
  rw [hword, Nat.and_zero]

theorem masked_addressMask (config : Configuration) (modMem : UInt8) :
    Masked config (config.addressMask modMem) := by
  unfold Configuration.addressMask
  split <;> cases config <;> exact masked_of (by decide) (by decide)

theorem masked_scratchpadL3Mask (config : Configuration) : Masked config config.scratchpadL3Mask := by
  cases config <;> exact masked_of (by decide) (by decide)

/-! ## The condition of a branch -/

variable {shift : UInt64}

theorem toNat_shifted {x : UInt64} (hshift : shift.toNat < 16) (hx : x.toNat < 2 ^ 16) :
    (x <<< shift).toNat = x.toNat * 2 ^ shift.toNat := by
  have hpow : 2 ^ shift.toNat ≤ 2 ^ 15 := Nat.pow_le_pow_right (by decide) (by omega)
  have hmul : x.toNat * 2 ^ shift.toNat ≤ 2 ^ 16 * 2 ^ 15 := Nat.mul_le_mul hx.le hpow
  rw [UInt64.toNat_shiftLeft, Nat.shiftLeft_eq, Nat.mod_eq_of_lt (a := shift.toNat) (by omega),
    Nat.mod_eq_of_lt (by omega)]

theorem testBit_branchImm (x : UInt64) (hshift : shift.toNat < 16) :
    (branchImm x shift).toNat.testBit (8 + shift.toNat) = true ∧
      (branchImm x shift).toNat.testBit (7 + shift.toNat) = false := by
  have hset : ((0x100 : UInt64) <<< shift).toNat = 2 ^ (8 + shift.toNat) := by
    rw [toNat_shifted hshift (by decide), Nat.pow_add]
    rfl
  have hclear : ((0x80 : UInt64) <<< shift).toNat = 2 ^ (7 + shift.toNat) := by
    rw [toNat_shifted hshift (by decide), Nat.pow_add]
    rfl
  have hlt : 2 ^ (7 + shift.toNat) < 2 ^ 64 := Nat.pow_lt_pow_right (by decide) (by omega)
  have hnot : (~~~((0x80 : UInt64) <<< shift)).toNat = 2 ^ 64 - (2 ^ (7 + shift.toNat) + 1) := by
    rw [UInt64.toNat_not, hclear]
    change 2 ^ 64 - 1 - _ = _
    omega
  simp only [branchImm, UInt64.toNat_and, UInt64.toNat_or, hset, hnot, Nat.testBit_and, Nat.testBit_or,
    Nat.testBit_two_pow_sub_succ hlt, Nat.testBit_two_pow]
  constructor
  · simp
    omega
  · simp

/-- The condition of a branch is that eight bits are zero. -/
theorem branchMask_iff (x : UInt64) (hshift : shift.toNat < 16) :
    x &&& (branchMask shift).toUInt64 = 0 ↔ x.toNat / 2 ^ (8 + shift.toNat) % 256 = 0 := by
  have hpow : 2 ^ shift.toNat ≤ 2 ^ 15 := Nat.pow_le_pow_right (by decide) (by omega)
  have hmask : (branchMask shift).toUInt64.toNat = (2 ^ 8 - 1) <<< (8 + shift.toNat) := by
    rw [UInt32.toNat_toUInt64, branchMask, UInt64.toNat_toUInt32, toNat_shifted hshift (by decide),
      Nat.shiftLeft_eq, Nat.pow_add]
    change 0xFF00 * _ % 2 ^ 32 = _
    omega
  rw [← UInt64.toNat_inj, UInt64.toNat_and, hmask, ← Nat.shiftRight_eq_div_pow,
    ← Nat.and_two_pow_sub_one_eq_mod _ 8]
  constructor
  · intro h
    apply Nat.eq_of_testBit_eq
    intro i
    have hbit := congrArg (·.testBit (i + (8 + shift.toNat))) h
    simpa [Nat.testBit_and, Nat.testBit_shiftLeft, Nat.testBit_shiftRight, Nat.add_comm] using hbit
  · intro h
    apply Nat.eq_of_testBit_eq
    intro i
    have hbit := congrArg (·.testBit (i - (8 + shift.toNat))) h
    simp only [Nat.testBit_and, Nat.testBit_shiftLeft, Nat.testBit_shiftRight, Nat.zero_testBit] at hbit ⊢
    by_cases hge : 8 + shift.toNat ≤ i
    · rw [Nat.add_sub_cancel' hge] at hbit
      simpa [hge] using hbit
    · simp [hge]

/-- A sum of two words, cut at a bit: above it the carry comes in. -/
theorem add_cut {x y : UInt64} {b : Nat} (hb : b + 8 ≤ 64) :
    (x + y).toNat / 2 ^ b % 256 = (x.toNat / 2 ^ b + y.toNat / 2 ^ b +
        if 2 ^ b ≤ x.toNat % 2 ^ b + y.toNat % 2 ^ b then 1 else 0) % 256 ∧
      (x + y).toNat % 2 ^ b = (x.toNat % 2 ^ b + y.toNat % 2 ^ b) % 2 ^ b := by
  have hsplit : 2 ^ 64 = 2 ^ b * 2 ^ (64 - b) := by rw [← Nat.pow_add, Nat.add_sub_cancel' (by omega)]
  have hdvd : 256 ∣ 2 ^ (64 - b) := Nat.pow_dvd_pow 2 (show 8 ≤ 64 - b by omega)
  rw [UInt64.toNat_add, hsplit, Nat.mod_mul_right_div_self, Nat.mod_mod_of_dvd _ hdvd,
    Nat.add_div (Nat.two_pow_pos b), Nat.mod_mul_right_mod, ← Nat.add_mod]
  exact ⟨rfl, rfl⟩

/-- **A branch is taken twice in a row at most**: the second time its condition holds the addition
has carried, and what is left below is too small to carry again. -/
theorem twice (x y : UInt64) (hshift : shift.toNat < 16)
    (hone : (y + branchImm x shift) &&& (branchMask shift).toUInt64 = 0)
    (htwo : (y + branchImm x shift + branchImm x shift) &&& (branchMask shift).toUInt64 = 0) :
    (y + branchImm x shift + branchImm x shift + branchImm x shift) &&&
      (branchMask shift).toUInt64 ≠ 0 := by
  obtain ⟨hset, hclear⟩ := testBit_branchImm x hshift
  generalize branchImm x shift = imm at *
  rw [branchMask_iff _ hshift] at hone htwo
  rw [ne_eq, branchMask_iff _ hshift]
  have hb : 8 + shift.toNat + 8 ≤ 64 := by omega
  obtain ⟨hhigh, hlow⟩ := add_cut (x := y + imm) (y := imm) hb
  obtain ⟨hhigh', -⟩ := add_cut (x := y + imm + imm) (y := imm) hb
  have hodd : imm.toNat / 2 ^ (8 + shift.toNat) % 2 = 1 := by
    rwa [Nat.testBit_eq_decide_div_mod_eq, decide_eq_true_eq] at hset
  have hhalf : imm.toNat % 2 ^ (8 + shift.toNat) < 2 ^ (7 + shift.toNat) := by
    have hsucc : 8 + shift.toNat = 7 + shift.toNat + 1 := by omega
    rw [Nat.testBit_eq_decide_div_mod_eq, decide_eq_false_iff_not, Nat.mod_two_not_eq_one] at hclear
    rw [hsucc, Nat.mod_pow_succ, hclear]
    exact Nat.mod_lt _ (Nat.two_pow_pos _)
  have hdouble : 2 ^ (8 + shift.toNat) = 2 * 2 ^ (7 + shift.toNat) := by
    rw [← Nat.pow_succ']
    congr 1
    omega
  have hrest := Nat.mod_lt (y + imm).toNat (Nat.two_pow_pos (8 + shift.toNat))
  rw [htwo] at hhigh
  rw [hhigh', hlow]
  split at hhigh
  · next hcarry =>
      have hmod : ((y + imm).toNat % 2 ^ (8 + shift.toNat) + imm.toNat % 2 ^ (8 + shift.toNat)) %
          2 ^ (8 + shift.toNat) = (y + imm).toNat % 2 ^ (8 + shift.toNat) +
            imm.toNat % 2 ^ (8 + shift.toNat) - 2 ^ (8 + shift.toNat) := by
        rw [Nat.mod_eq_sub_mod hcarry, Nat.mod_eq_of_lt (by omega)]
      rw [hmod, if_neg (by omega)]
      omega
  · omega

/-! ## What an instruction does -/

/-- The registers that an instruction writes. -/
def Writes (ibc : InstructionByteCode) (d : Fin 8) : Prop :=
  (ibc.dst = .r d ∧ ibc.type ∉ [CFROUND, ISTORE, NOP]) ∨ (ibc.src = .r d ∧ ibc.type = ISWAP_R)

/-- All other registers have kept their values. -/
def Keeps (ibc : InstructionByteCode) (s s' : State) : Prop :=
  ∀ d, ¬ Writes ibc d → s'.r d = s.r d

section

variable {α : Type} {s : State} {d i : Fin 8} {program : ProgramConfiguration}

theorem sure_isrc (h : ibc.src = .r i ∨ ibc.src = .zero ∨ ibc.src = .imm) :
    (isrc s ibc).Sure fun _ => True := by
  unfold isrc
  obtain h | h | h := h <;> simp [h]

theorem sure_fsrc {j : Fin 4} (h : ibc.src = .a j) : (fsrc s ibc).Sure fun _ => True := by
  unfold fsrc
  simp [h]

theorem sure_loadM (h : ibc.src = .r i ∨ ibc.src = .zero ∨ ibc.src = .imm)
    (hmask : Masked config ibc.memMask) : (loadM config s ibc).Sure fun _ => True := by
  refine (sure_isrc h).bind fun x _ => ?_
  obtain ⟨hword, hle⟩ := hmask (x + ibc.imm)
  generalize (x + ibc.imm) &&& ibc.memMask.toUInt64 = addr at hword hle ⊢
  have hsize : config.scratchpadSize ≤ 2 ^ 32 := by cases config <;> decide
  have hlong : addr.toNat % 2 ^ 32 = addr.toNat := Nat.mod_eq_of_lt (by omega)
  rw [load64, UInt64.toNat_toUInt32, hlong, if_pos ⟨hword, hle⟩]
  trivial

theorem sure_modifyR {op : UInt64 → UInt64} (hdst : ibc.dst = .r d) (hwrites : Writes ibc d) :
    (modifyR s ibc op).Sure (Keeps ibc s) := by
  simp only [modifyR, idst, hdst]
  intro d' hd'
  refine Function.update_of_ne ?_ _ _
  rintro rfl
  exact hd' hwrites

theorem sure_modifyF {op : VecF → VecF} (hdst : ∃ j, ibc.dst = .f j ∨ ibc.dst = .e j) :
    (modifyF s ibc op).Sure (Keeps ibc s) := by
  obtain ⟨j, h | h⟩ := hdst <;> simp only [modifyF, h] <;> exact fun _ _ => rfl

/-! ## What is compiled -/

/-- The usage that is left is the instruction, or it is the old one, and the register is not
written. -/
def Used (usage usage' : Usage) (n : Nat) (ibc : InstructionByteCode) : Prop :=
  ∀ d, usage' d = n ∨ usage' d = usage d ∧ ¬ Writes ibc d

theorem used_update {n : Nat} (hdst : ibc.dst = .r i) (htype : ibc.type ≠ ISWAP_R) :
    Used usage (Function.update usage i n) n ibc := by
  intro d
  by_cases hd : d = i
  · subst hd
    exact .inl (Function.update_self _ _ _)
  · refine .inr ⟨Function.update_of_ne hd _ _, ?_⟩
    rintro (⟨h, -⟩ | ⟨-, h⟩)
    · rw [hdst, Pointer.r.injEq] at h
      exact hd h.symm
    · exact htype h

theorem used_self {n : Nat} (h : ∀ d, ¬ Writes ibc d) : Used usage usage n ibc :=
  fun d => .inr ⟨rfl, h d⟩

theorem compileR_fields (instr : Instruction) (ibc : InstructionByteCode) (type : InstructionType)
    (imm : UInt64) :
    (compileR type imm instr ibc).type = type ∧
      (compileR type imm instr ibc).dst = .r instr.dstR ∧
      ((compileR type imm instr ibc).src = .r instr.srcR ∨
        (compileR type imm instr ibc).src = .zero ∨ (compileR type imm instr ibc).src = .imm) := by
  unfold compileR
  split <;> simp

theorem compileM_fields (config : Configuration) (instr : Instruction) (ibc : InstructionByteCode)
    (type : InstructionType) :
    (compileM config type instr ibc).type = type ∧
      (compileM config type instr ibc).dst = .r instr.dstR ∧
      Masked config (compileM config type instr ibc).memMask ∧
      ((compileM config type instr ibc).src = .r instr.srcR ∨
        (compileM config type instr ibc).src = .zero ∨
        (compileM config type instr ibc).src = .imm) := by
  unfold compileM
  split <;> simp [masked_addressMask, masked_scratchpadL3Mask]

variable [Fpu]

/-- An instruction that does not branch meets no fault, whatever the registers hold, and leaves
alone what it does not write. -/
structure Plain (config : Configuration) (ibc : InstructionByteCode) : Prop where
  type : ibc.type ≠ CBRANCH
  sure : ∀ program s, (executePlain config s ibc program).Sure (Keeps ibc s)

/-- A branch adds an immediate to a register, and goes back to `target` twice in a row at most. -/
structure Branch (ibc : InstructionByteCode) (d : Fin 8) (target : Int) : Prop where
  type : ibc.type = CBRANCH
  dst : ibc.dst = .r d
  target : ibc.word.toInt16.toInt = target
  twice : ∀ y : UInt64, (y + ibc.imm) &&& ibc.memMask.toUInt64 = 0 →
    (y + ibc.imm + ibc.imm) &&& ibc.memMask.toUInt64 = 0 →
    (y + ibc.imm + ibc.imm + ibc.imm) &&& ibc.memMask.toUInt64 ≠ 0

theorem plain_compileR (imm : UInt64) {type : InstructionType} {n : Nat}
    (htype : type ∈ [ISUB_R, IMUL_R, IXOR_R, IROR_R, IROL_R]) :
    Plain config (compileR type imm instr ibc) ∧
      Used usage (Function.update usage instr.dstR n) n (compileR type imm instr ibc) := by
  have hfields := compileR_fields instr ibc type imm
  generalize compileR type imm instr ibc = ibc at hfields ⊢
  obtain ⟨rfl, hdst, hsrc⟩ := hfields
  simp only [List.mem_cons, List.not_mem_nil, or_false] at htype
  refine ⟨⟨?_, fun program s => ?_⟩, used_update hdst ?_⟩
  · rintro h
    simp [h] at htype
  · have hwrites : Writes ibc instr.dstR := by
      obtain h | h | h | h | h := htype <;> exact .inl ⟨hdst, by simp [h]⟩
    unfold executePlain
    obtain h | h | h | h | h := htype <;> rw [h] <;>
      exact (sure_isrc hsrc).bind fun _ _ => sure_modifyR hdst hwrites
  · rintro h
    simp [h] at htype

theorem plain_compileM {type : InstructionType} {n : Nat}
    (htype : type ∈ [IADD_M, ISUB_M, IMUL_M, IMULH_M, ISMULH_M, IXOR_M]) :
    Plain config (compileM config type instr ibc) ∧
      Used usage (Function.update usage instr.dstR n) n (compileM config type instr ibc) := by
  have hfields := compileM_fields config instr ibc type
  generalize compileM config type instr ibc = ibc at hfields ⊢
  obtain ⟨rfl, hdst, hmask, hsrc⟩ := hfields
  simp only [List.mem_cons, List.not_mem_nil, or_false] at htype
  refine ⟨⟨?_, fun program s => ?_⟩, used_update hdst ?_⟩
  · rintro h
    simp [h] at htype
  · have hwrites : Writes ibc instr.dstR := by
      obtain h | h | h | h | h | h := htype <;> exact .inl ⟨hdst, by simp [h]⟩
    unfold executePlain
    obtain h | h | h | h | h | h := htype <;> rw [h] <;>
      exact (sure_loadM hsrc hmask).bind fun _ _ => sure_modifyR hdst hwrites
  · rintro h
    simp [h] at htype

theorem plain_compileFltM {type : InstructionType} {dst : Pointer} {n : Nat}
    (htype : type ∈ [FADD_M, FSUB_M, FDIV_M]) (hdst : ∃ j, dst = .f j ∨ dst = .e j) :
    Plain config (compileFltM config type dst instr ibc) ∧
      Used usage usage n (compileFltM config type dst instr ibc) := by
  have hfields : (compileFltM config type dst instr ibc).type = type ∧
      (compileFltM config type dst instr ibc).dst = dst ∧
      Masked config (compileFltM config type dst instr ibc).memMask ∧
      (compileFltM config type dst instr ibc).src = .r instr.srcR :=
    ⟨rfl, rfl, masked_addressMask _ _, rfl⟩
  generalize compileFltM config type dst instr ibc = ibc at hfields ⊢
  obtain ⟨rfl, rfl, hmask, hsrc⟩ := hfields
  simp only [List.mem_cons, List.not_mem_nil, or_false] at htype
  refine ⟨⟨?_, fun program s => ?_⟩, used_self ?_⟩
  · rintro h
    simp [h] at htype
  · unfold executePlain
    obtain h | h | h := htype <;> rw [h] <;>
      exact (sure_loadM (.inl hsrc) hmask).bind fun _ _ => sure_modifyF hdst
  · rintro d (⟨h, -⟩ | ⟨-, h⟩)
    · obtain ⟨j, hj | hj⟩ := hdst <;> simp [h] at hj
    · simp [h] at htype

theorem plain_NOP {n : Nat} (htype : ibc.type = NOP) : Plain config ibc ∧ Used usage usage n ibc := by
  refine ⟨⟨by simp [htype], fun program s => ?_⟩, used_self ?_⟩
  · simp only [executePlain, htype]
    exact fun _ _ => rfl
  · simp [Writes, htype]

/-- What an instruction is compiled to either does not branch, and then the new usage is that of
the registers it writes, or it is a branch to the old usage of its register. -/
theorem compileType_spec (config : Configuration) (instr : Instruction) {n : Nat}
    (husage : ∀ d, -1 ≤ usage d ∧ usage d < 256) (type : InstructionType) (ibc : InstructionByteCode) :
    let x := compileType config instr n usage ibc type
    (Plain config x.2 ∧ Used usage x.1 n x.2) ∨
      (Branch x.2 instr.dstR (usage instr.dstR) ∧ ∀ d, x.1 d = n) := by
  cases type with
  | ISUB_R => exact .inl (plain_compileR _ (by decide))
  | IMUL_R => exact .inl (plain_compileR _ (by decide))
  | IXOR_R => exact .inl (plain_compileR _ (by decide))
  | IROR_R => exact .inl (plain_compileR _ (by decide))
  | IROL_R => exact .inl (plain_compileR _ (by decide))
  | IADD_M => exact .inl (plain_compileM (by decide))
  | ISUB_M => exact .inl (plain_compileM (by decide))
  | IMUL_M => exact .inl (plain_compileM (by decide))
  | IMULH_M => exact .inl (plain_compileM (by decide))
  | ISMULH_M => exact .inl (plain_compileM (by decide))
  | IXOR_M => exact .inl (plain_compileM (by decide))
  | FADD_M => exact .inl (plain_compileFltM (by decide) ⟨_, .inl rfl⟩)
  | FSUB_M => exact .inl (plain_compileFltM (by decide) ⟨_, .inl rfl⟩)
  | FDIV_M => exact .inl (plain_compileFltM (by decide) ⟨_, .inr rfl⟩)
  | NOP => exact .inl (plain_NOP rfl)
  | IADD_RS | IMULH_R | ISMULH_R =>
      refine .inl ⟨⟨by simp [compileType], fun program s => ?_⟩, used_update rfl (by simp [compileType])⟩
      exact (sure_isrc (.inl rfl)).bind fun _ _ => sure_modifyR rfl (.inl ⟨rfl, by simp [compileType]⟩)
  | INEG_R =>
      refine .inl ⟨⟨by simp [compileType], fun program s => ?_⟩, used_update rfl (by simp [compileType])⟩
      simp only [compileType, executePlain]
      exact sure_modifyR rfl (.inl ⟨rfl, by simp⟩)
  | IMUL_RCP =>
      simp only [compileType]
      split
      · refine .inl ⟨⟨by simp, fun program s => ?_⟩, used_update rfl (by simp)⟩
        exact (sure_isrc (i := 0) (.inr (.inr rfl))).bind fun _ _ => sure_modifyR rfl (.inl ⟨rfl, by simp⟩)
      · exact .inl (plain_NOP rfl)
  | ISWAP_R =>
      simp only [compileType]
      split
      · refine .inl ⟨⟨by simp, fun program s d hd => ?_⟩, fun d => ?_⟩
        · dsimp only at hd
          have hdst : d ≠ instr.dstR := by
            rintro rfl
            exact hd (.inl ⟨rfl, by simp⟩)
          have hsrc : d ≠ instr.srcR := by
            rintro rfl
            exact hd (.inr ⟨rfl, rfl⟩)
          exact (Function.update_of_ne hdst _ _).trans (Function.update_of_ne hsrc _ _)
        · dsimp only
          by_cases hsrc : d = instr.srcR
          · exact .inl (by rw [hsrc, Function.update_self])
          · by_cases hdst : d = instr.dstR
            · exact .inl (by rw [Function.update_of_ne hsrc, hdst, Function.update_self])
            · refine .inr ⟨by rw [Function.update_of_ne hsrc, Function.update_of_ne hdst], ?_⟩
              simp [Writes, Ne.symm hsrc, Ne.symm hdst]
      · exact .inl (plain_NOP rfl)
  | FADD_R | FSUB_R | FMUL_R =>
      refine .inl ⟨⟨by simp [compileType], fun program s => ?_⟩, used_self (by simp [Writes, compileType])⟩
      exact (sure_fsrc rfl).bind fun _ _ => sure_modifyF ⟨instr.dstFlt, by simp [compileType]⟩
  | FSCAL_R | FSQRT_R =>
      refine .inl ⟨⟨by simp [compileType], fun program s => ?_⟩, used_self (by simp [Writes, compileType])⟩
      simp only [compileType, executePlain]
      exact sure_modifyF ⟨instr.dstFlt, by simp⟩
  | FSWAP_R =>
      simp only [compileType]
      refine .inl ⟨⟨by simp, fun program s => ?_⟩, used_self ?_⟩
      · refine sure_modifyF ?_
        dsimp only
        split
        · exact ⟨_, .inl rfl⟩
        · exact ⟨_, .inr rfl⟩
      · intro d
        split <;> simp [Writes]
  | CFROUND =>
      refine .inl ⟨⟨by simp [compileType], fun program s => ?_⟩, used_self (by simp [Writes, compileType])⟩
      exact (sure_isrc (.inl rfl)).bind fun _ _ _ _ => rfl
  | ISTORE =>
      have hmask : Masked config (if instr.getModCond < 14 then config.addressMask instr.getModMem
          else config.scratchpadL3Mask) := by
        split
        · exact masked_addressMask _ _
        · exact masked_scratchpadL3Mask _
      refine .inl ⟨⟨by simp [compileType], fun program s => ?_⟩, used_self (by simp [Writes, compileType])⟩
      refine (sure_isrc (.inl rfl)).bind fun x _ => ?_
      obtain ⟨hword, hle⟩ := hmask (s.r instr.dstR + signExtend2sCompl instr.imm32)
      refine Except.Sure.bind (P := (· = instr.dstR)) rfl ?_
      rintro _ rfl
      unfold store64
      rw [if_pos]
      · exact fun _ _ => rfl
      · exact ⟨hword, hle⟩
  | CBRANCH =>
      refine .inr ⟨⟨rfl, rfl, ?_, fun y hone htwo => ?_⟩, fun _ => rfl⟩
      · obtain ⟨hlow, hhigh⟩ := husage instr.dstR
        exact Int16.toInt_ofInt_of_le (by omega) (by omega)
      · have hshift : instr.getModCond.toUInt64.toNat < 16 := by
          have := instr.mod.toNat_lt
          simp only [Instruction.getModCond, UInt8.toNat_toUInt64, UInt8.toNat_shiftRight,
            Nat.shiftRight_eq_div_pow, UInt8.reduceToNat, Nat.reduceMod]
          omega
        exact twice _ y hshift hone htwo

variable {code : Nat → InstructionByteCode} {n : Nat}

/-- Between the instruction that is noted for a register and `n`, nothing writes it, and nothing
branches. -/
def Between (code : Nat → InstructionByteCode) (d : Fin 8) (target : Int) (n : Nat) : Prop :=
  ∀ j : Nat, target < j → j < n → ¬ Writes (code j) d ∧ (code j).type ≠ CBRANCH

omit [Fpu] in
theorem Between.congr {code' : Nat → InstructionByteCode} {target : Int} (h : Between code d target n)
    (hcode : ∀ j < n, code' j = code j) : Between code' d target n := by
  intro j hj hn
  rw [hcode j hn]
  exact h j hj hn

/-- The first `n` instructions are compiled. -/
def Compiled (config : Configuration) (code : Nat → InstructionByteCode) (n : Nat) : Prop :=
  ∀ i < n, Plain config (code i) ∨
    ∃ d target, Branch (code i) d target ∧ -1 ≤ target ∧ target < i ∧ Between code d target i

/-- The invariant of the compilation. -/
structure Tracks (config : Configuration) (usage : Usage) (code : Nat → InstructionByteCode)
    (n : Nat) : Prop where
  lower : ∀ d, -1 ≤ usage d
  upper : ∀ d, usage d < n
  between : ∀ d, Between code d (usage d) n
  compiled : Compiled config code n

/-- One instruction more. -/
theorem Tracks.succ (h : Tracks config usage code n) (hn : n < 256) (instr : Instruction)
    (type : InstructionType) :
    let x := compileType config instr n usage (code n) type
    Tracks config x.1 (Function.update code n x.2) (n + 1) := by
  have husage : ∀ d, -1 ≤ usage d ∧ usage d < 256 := fun d => by
    have := h.lower d
    have := h.upper d
    omega
  have hspec := compileType_spec config instr (n := n) husage type (code n)
  generalize compileType config instr n usage (code n) type = x at hspec
  have hold : ∀ j < n, Function.update code n x.2 j = code j :=
    fun j hj => Function.update_of_ne hj.ne _ _
  have hnew : Function.update code n x.2 n = x.2 := Function.update_self _ _ _
  -- either the instruction itself, or an older one, and it is not written since
  have hentry : ∀ d, x.1 d = n ∨ x.1 d = usage d ∧ ¬ Writes x.2 d ∧ x.2.type ≠ CBRANCH := by
    intro d
    obtain ⟨hplain, hused⟩ | ⟨-, hused⟩ := hspec
    · exact (hused d).imp_right fun ⟨hsame, hkept⟩ => ⟨hsame, hkept, hplain.type⟩
    · exact .inl (hused d)
  refine ⟨fun d => ?_, fun d => ?_, fun d j hj hlt => ?_, fun i hi => ?_⟩
  · obtain he | ⟨he, -⟩ := hentry d
    · omega
    · exact he ▸ h.lower d
  · obtain he | ⟨he, -⟩ := hentry d
    · omega
    · have := h.upper d
      omega
  · obtain he | ⟨he, hkept⟩ := hentry d
    · omega
    · obtain rfl | hj' := Nat.eq_or_lt_of_le (Nat.le_of_lt_succ hlt)
      · rwa [hnew]
      · rw [hold j hj']
        exact h.between d j (he ▸ hj) hj'
  · obtain rfl | hi' := Nat.eq_or_lt_of_le (Nat.le_of_lt_succ hi)
    · rw [hnew]
      obtain ⟨hplain, -⟩ | ⟨hbranch, -⟩ := hspec
      · exact .inl hplain
      · exact .inr ⟨_, _, hbranch, h.lower _, h.upper _, (h.between _).congr hold⟩
    · rw [hold i hi']
      exact (h.compiled i hi').imp_right fun ⟨d, target, hbranch, hlow, hup, hbetween⟩ =>
        ⟨d, target, hbranch, hlow, hup, hbetween.congr fun j hj => hold j (hj.trans hi')⟩

/-- A program is compiled, whatever the bytecode held before. -/
theorem sure_compileProgram (config : Configuration) (program : Nat → Instruction)
    (bytecode : Nat → InstructionByteCode) (hn : n ≤ 256) :
    (compileProgram config program bytecode n).Sure fun x => Tracks config x.1 x.2 n := by
  induction n with
  | zero =>
      refine ⟨fun _ => le_rfl, fun _ => by simp, fun d j _ hj => ?_, fun i hi => ?_⟩
      · exact absurd hj (Nat.not_lt_zero j)
      · exact absurd hi (Nat.not_lt_zero i)
  | succ n ih =>
      refine (ih (by omega)).bind fun x hx => ?_
      obtain ⟨type, htype⟩ := exists_decode config (program n).opcode
      simp only [compileInstruction, htype]
      exact hx.succ (by omega) (program n) type

/-! ## Execution -/

variable {program : ProgramConfiguration} {s s' s'' : State} {pc pc' pc'' : Int} {m : Nat}

/-- The loop of `executeBytecode` comes from one instruction to another. -/
def Reaches (config : Configuration) (program : ProgramConfiguration)
    (code : Nat → InstructionByteCode) (n : Nat) (pc : Int) (s : State) (pc' : Int) (s' : State) :
    Prop :=
  ∀ fuel, executeBytecode config program code (n + fuel) pc s =
    executeBytecode config program code fuel pc' s'

theorem Reaches.refl : Reaches config program code 0 pc s pc s := fun fuel => by rw [Nat.zero_add]

theorem Reaches.trans (h : Reaches config program code n pc s pc' s')
    (h' : Reaches config program code m pc' s' pc'' s'') :
    Reaches config program code (n + m) pc s pc'' s'' := fun fuel => by
  rw [Nat.add_assoc, h, h']

theorem reaches_one {i : Nat} (hi : i < config.programSize)
    (h : executeInstruction config s (code i) program i = .ok (s', pc')) :
    Reaches config program code 1 i s (pc' + 1) s' := by
  intro fuel
  rw [Nat.add_comm, executeBytecode, if_pos (by omega), if_pos (by omega), Int.toNat_natCast, h]
  rfl

variable (program)

/-- Where nothing branches, the instructions run one after the other. -/
theorem reaches_straight {a i : Nat} (hai : a ≤ i) (hi : i ≤ config.programSize)
    (hplain : ∀ j, a ≤ j → j < i → Plain config (code j)) (s : State) :
    ∃ s', Reaches config program code (i - a) a s i s' ∧
      ∀ d, (∀ j, a ≤ j → j < i → ¬ Writes (code j) d) → s'.r d = s.r d := by
  induction i, hai using Nat.le_induction with
  | base => exact ⟨s, by simpa using Reaches.refl, fun _ _ => rfl⟩
  | succ i hai ih =>
      obtain ⟨s₁, hreach, hkept⟩ := ih (by omega) fun j hj hlt => hplain j hj (by omega)
      obtain ⟨htype, hsure⟩ := hplain i hai (Nat.lt_succ_self i)
      obtain ⟨s₂, hexec, hkeeps⟩ := Except.sure_iff.mp (hsure program s₁)
      have hone : Reaches config program code 1 i s₁ (i + 1 : Nat) s₂ := by
        push_cast
        refine reaches_one (by omega) ?_
        rw [executeInstruction, if_neg htype, hexec]
        rfl
      refine ⟨s₂, ?_, fun d hd => ?_⟩
      · rw [Nat.succ_sub hai]
        exact hreach.trans hone
      · rw [hkeeps d (hd i hai (Nat.lt_succ_self i))]
        exact hkept d fun j hj hlt => hd j hj (by omega)

variable {target : Int} {d : Fin 8} {i : Nat}

theorem reaches_branch (h : Branch (code i) d target) (hi : i < config.programSize) (s : State) :
    Reaches config program code 1 i s
      ((if (s.r d + (code i).imm) &&& (code i).memMask.toUInt64 = 0 then target else i) + 1)
      (setR s d (s.r d + (code i).imm)) := by
  refine reaches_one hi ?_
  have hset : (setR s d (s.r d + (code i).imm)).r d = s.r d + (code i).imm := Function.update_self _ _ _
  rw [executeInstruction, if_pos h.type]
  simp only [idst, h.dst, Except.bind, bind, pure, Except.pure, hset, h.target]

/-- A branch that is taken comes back to itself, with its immediate added to its register. -/
theorem reaches_back (h : Branch (code i) d target) (hi : i < config.programSize)
    (hlow : -1 ≤ target) (hup : target < i) (hbetween : Between code d target i)
    (hcompiled : Compiled config code config.programSize) {y : UInt64} (hs : s.r d = y)
    (hcond : (y + (code i).imm) &&& (code i).memMask.toUInt64 = 0) :
    ∃ s', Reaches config program code (i + 1 - (target + 1).toNat) i s i s' ∧
      s'.r d = y + (code i).imm := by
  subst hs
  have hbranch := reaches_branch program h hi s
  rw [if_pos hcond] at hbranch
  have hstart : target + 1 = ((target + 1).toNat : Int) := by omega
  rw [hstart] at hbranch
  obtain ⟨s', hreach, hkept⟩ := reaches_straight program
    (a := (target + 1).toNat) (i := i) (by omega) hi.le (fun j hj hlt =>
      (hcompiled j (by omega)).resolve_right fun ⟨_, _, hj', _⟩ =>
        (hbetween j (by omega) hlt).2 hj'.type)
    (setR s d (s.r d + (code i).imm))
  refine ⟨s', ?_, ?_⟩
  · have hcount : i + 1 - (target + 1).toNat = 1 + (i - (target + 1).toNat) := by omega
    rw [hcount]
    exact hbranch.trans hreach
  · rw [hkept d fun j hj hlt => (hbetween j (by omega) hlt).1]
    exact Function.update_self _ _ _

/-- A branch is left after two repetitions at most. -/
theorem reaches_next (h : Branch (code i) d target) (hi : i < config.programSize)
    (hlow : -1 ≤ target) (hup : target < i) (hbetween : Between code d target i)
    (hcompiled : Compiled config code config.programSize) (s : State) :
    ∃ n s', n ≤ 1 + 2 * (i + 1 - (target + 1).toNat) ∧
      Reaches config program code n i s (i + 1 : Nat) s' := by
  have hleave : ∀ {s : State} {y : UInt64}, s.r d = y →
      ¬ (y + (code i).imm) &&& (code i).memMask.toUInt64 = 0 →
      ∃ s', Reaches config program code 1 i s (i + 1 : Nat) s' := by
    rintro s _ rfl hcond
    have hbranch := reaches_branch program h hi s
    rw [if_neg hcond] at hbranch
    exact ⟨_, by exact_mod_cast hbranch⟩
  by_cases hone : (s.r d + (code i).imm) &&& (code i).memMask.toUInt64 = 0
  · obtain ⟨s₁, hreach₁, hs₁⟩ := reaches_back program h hi hlow hup hbetween hcompiled rfl hone
    by_cases htwo : (s.r d + (code i).imm + (code i).imm) &&& (code i).memMask.toUInt64 = 0
    · obtain ⟨s₂, hreach₂, hs₂⟩ := reaches_back program h hi hlow hup hbetween hcompiled hs₁ htwo
      obtain ⟨s₃, hreach₃⟩ := hleave hs₂ (h.twice _ hone htwo)
      exact ⟨_, s₃, by omega, (hreach₁.trans hreach₂).trans hreach₃⟩
    · obtain ⟨s₂, hreach₂⟩ := hleave hs₁ htwo
      exact ⟨_, s₂, by omega, hreach₁.trans hreach₂⟩
  · obtain ⟨s₁, hreach₁⟩ := hleave rfl hone
    exact ⟨1, s₁, by omega, hreach₁⟩

/-- From an instruction that no later branch goes back over, to the end. -/
theorem reaches_end (hcompiled : Compiled config code config.programSize) {a : Nat}
    (ha : a ≤ config.programSize)
    (hstart : ∀ i d target, a ≤ i → i < config.programSize → Branch (code i) d target →
      (a : Int) ≤ target + 1) (s : State) :
    ∃ n s', n ≤ 3 * (config.programSize - a) ∧
      Reaches config program code n a s config.programSize s' := by
  induction hrest : config.programSize - a using Nat.strong_induction_on generalizing a s with
  | _ rest ih =>
      subst hrest
      by_cases hbranch : ∃ i, a ≤ i ∧ i < config.programSize ∧ (code i).type = CBRANCH
      · obtain ⟨hai, hi, htype⟩ := Nat.find_spec hbranch
        have hfirst := fun j => Nat.find_min (m := j) hbranch
        generalize Nat.find hbranch = i at hai hi htype hfirst
        obtain hplain | ⟨d, target, hb, hlow, hup, hbetween⟩ := hcompiled i hi
        · exact absurd htype hplain.type
        obtain ⟨s₁, hreach₁, -⟩ := reaches_straight program hai hi.le
          (fun j hj hlt => (hcompiled j (by omega)).resolve_right fun ⟨_, _, hj', _⟩ =>
            hfirst j hlt ⟨hj, by omega, hj'.type⟩) s
        obtain ⟨n, s₂, hn, hreach₂⟩ :=
          reaches_next program hb hi hlow hup hbetween hcompiled s₁
        have hback := hstart i d target hai hi hb
        -- a later branch does not go back over this one
        obtain ⟨m, s₃, hm, hreach₃⟩ := ih (config.programSize - (i + 1)) (by omega) (a := i + 1) hi
          (fun j d' target' hj hlt hb' => by
            obtain hplain | ⟨d'', target'', hb'', -, -, hbetween'⟩ := hcompiled j hlt
            · exact absurd hb'.type hplain.type
            · have hsame : target' = target'' := hb'.target.symm.trans hb''.target
              by_contra hlt'
              exact (hbetween' i (by omega) (by omega)).2 htype) s₂ rfl
        exact ⟨_, s₃, by omega, (hreach₁.trans hreach₂).trans hreach₃⟩
      · obtain ⟨s₁, hreach₁, -⟩ := reaches_straight program ha le_rfl
          (fun j hj hlt => (hcompiled j hlt).resolve_right fun ⟨_, _, hj', _⟩ =>
            hbranch ⟨j, hj, hlt, hj'.type⟩) s
        exact ⟨_, s₁, by omega, hreach₁⟩

theorem executeBytecode_of_compiled (hcompiled : Compiled config code config.programSize)
    (program : ProgramConfiguration) (s : State) :
    ∃ s', ∀ fuel > 3 * config.programSize, executeBytecode config program code fuel 0 s = .ok s' := by
  obtain ⟨n, s', hn, hreach⟩ := reaches_end program hcompiled (Nat.zero_le _)
    (fun i d target _ hi hb => by
      obtain hplain | ⟨d', target', hb', hlow, -⟩ := hcompiled i hi
      · exact absurd hb.type hplain.type
      · have hsame : target = target' := hb.target.symm.trans hb'.target
        omega) s
  refine ⟨s', fun fuel hfuel => ?_⟩
  obtain ⟨rest, hrest⟩ : ∃ rest, fuel = n + (rest + 1) := ⟨fuel - n - 1, by omega⟩
  rw [hrest]
  refine (hreach (rest + 1)).trans ?_
  rw [executeBytecode, if_neg (by omega)]

/-- **A program ends, and meets no fault.**  Whatever the program is and the registers hold, at
most `3 * programSize` instructions are executed, no opcode is unknown, and no pointer, index or
address is wrong. -/
theorem compileProgram_execute (config : Configuration) (instructions : Nat → Instruction)
    (bytecode : Nat → InstructionByteCode) (program : ProgramConfiguration) (s : State) :
    ∃ usage code s',
      compileProgram config instructions bytecode config.programSize = .ok (usage, code) ∧
      ∀ fuel > 3 * config.programSize,
        executeBytecode config program code fuel 0 s = .ok s' := by
  have hsize : config.programSize ≤ 256 := by cases config <;> decide
  obtain ⟨⟨usage, code⟩, hcompile, htracks⟩ :=
    Except.sure_iff.mp (sure_compileProgram config instructions bytecode hsize)
  obtain ⟨s', hexec⟩ := executeBytecode_of_compiled htracks.compiled program s
  exact ⟨usage, code, s', hcompile, hexec⟩

end

end BytecodeMachine

end XLArig
