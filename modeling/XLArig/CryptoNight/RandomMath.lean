import XLArig.Algorithm
import XLArig.Sure

/-!
# XLArig.CryptoNight.RandomMath

`crypto/cn/r/variant4_random_math.h`: random programs for `CN_R`, their generator and their
interpreter.

Every access to an array is checked here, and so is what the generator relies on: that there is a
unit for an instruction that it issues, and that no unit is taken twice in a cycle.  The bytes come
from a hash of the bytes before, which may be any function.
-/

namespace XLArig

namespace V4

/-! ## Programs -/

/-- `V4_Settings`. -/
def TOTAL_LATENCY : Nat := 15 * 3
def NUM_INSTRUCTIONS_MIN : Nat := 60
def NUM_INSTRUCTIONS_MAX : Nat := 70
def ALU_COUNT_MUL : Nat := 1
def ALU_COUNT : Nat := 3

/-- `V4_InstructionList`. -/
def MUL : Nat := 0
def ADD : Nat := 1
def SUB : Nat := 2
def ROR : Nat := 3
def ROL : Nat := 4
def XOR : Nat := 5
def RET : Nat := 6

/-- `V4_Instruction`. -/
structure Instruction where
  opcode : Nat
  dstIndex : Nat
  srcIndex : Nat
  C : UInt32
  deriving DecidableEq, Repr

/-- What must not happen. -/
inductive Fault
  /-- An index outside an array. -/
  | bounds
  /-- No unit for an instruction that is issued. -/
  | noAlu
  /-- A unit that is taken twice in a cycle. -/
  | claimed
  /-- A loop of a round that goes on. -/
  | stuck
  /-- More rounds than were looked at. -/
  | running
  /-- An opcode that the interpreter does not know. -/
  | unreachable
  deriving DecidableEq, Repr

/-- The array of instructions that the caller has. -/
abbrev Code := Vector Instruction (NUM_INSTRUCTIONS_MAX + 1)

/-! ## The interpreter -/

section

variable {w : Nat}

/-- `V4_EXEC`; there are no registers after `RET`. -/
def exec (op : Instruction) (r : Vector (BitVec w) 9) :
    Except Fault (Option (Vector (BitVec w) 9)) := do
  let src ← r.fetch .bounds op.srcIndex
  let dst ← r.fetch .bounds op.dstIndex
  let shift := src.toNat % w
  if op.opcode = MUL then
    return some (← r.store .bounds op.dstIndex (dst * src))
  else if op.opcode = ADD then
    return some (← r.store .bounds op.dstIndex (dst + (src + op.C.toBitVec.setWidth w)))
  else if op.opcode = SUB then
    return some (← r.store .bounds op.dstIndex (dst - src))
  else if op.opcode = ROR then
    return some (← r.store .bounds op.dstIndex ((dst >>> shift) ||| (dst <<< ((w - shift) % w))))
  else if op.opcode = ROL then
    return some (← r.store .bounds op.dstIndex ((dst <<< shift) ||| (dst >>> ((w - shift) % w))))
  else if op.opcode = XOR then
    return some (← r.store .bounds op.dstIndex (dst ^^^ src))
  else if op.opcode = RET then return none
  else throw .unreachable

/-- At most `n` instructions from instruction `i` on; the number of those executed comes with the
registers. -/
def execFrom (code : Code) : (n i : Nat) → Vector (BitVec w) 9 →
    Except Fault (Nat × Vector (BitVec w) 9)
  | 0, i, r => .ok (i, r)
  | n + 1, i, r => do
      let op ← code.fetch .bounds i
      match ← exec op r with
      | some r => execFrom code n (i + 1) r
      | none => return (i, r)

/-- `v4_random_math`. -/
def v4RandomMath (code : Code) (r : Vector (BitVec w) 9) :
    Except Fault (Nat × Vector (BitVec w) 9) :=
  execFrom code NUM_INSTRUCTIONS_MAX 0 r

end

/-! ## Random bytes -/

/-- The buffer and the index of its next byte. -/
structure Buffer where
  data : Vector UInt8 32
  dataIndex : Nat

section

variable (refresh : Vector UInt8 32 → Vector UInt8 32)

/-- `check_data`. -/
def checkData (d : Buffer) (bytesNeeded : Nat) : Buffer :=
  if d.dataIndex + bytesNeeded > 32 then ⟨refresh d.data, 0⟩ else d

/-- A byte. -/
def nextByte (d : Buffer) : Except Fault (UInt8 × Buffer) := do
  let d := checkData refresh d 1
  let c ← d.data.fetch .bounds d.dataIndex
  return (c, { d with dataIndex := d.dataIndex + 1 })

/-- A constant of 32 bits. -/
def nextWord (d : Buffer) : Except Fault (UInt32 × Buffer) := do
  let d := checkData refresh d 4
  let c0 ← d.data.fetch .bounds d.dataIndex
  let c1 ← d.data.fetch .bounds (d.dataIndex + 1)
  let c2 ← d.data.fetch .bounds (d.dataIndex + 2)
  let c3 ← d.data.fetch .bounds (d.dataIndex + 3)
  return (c0.toUInt32 ||| (c1.toUInt32 <<< 8) ||| (c2.toUInt32 <<< 16) ||| (c3.toUInt32 <<< 24),
    { d with dataIndex := d.dataIndex + 4 })

/-! ## The first phase -/

def opLatency : Vector Nat 6 := #v[3, 2, 1, 2, 2, 1]
def asicOpLatency : Vector Nat 6 := #v[3, 1, 1, 1, 1, 1]
def opALUs : Vector Nat 6 :=
  #v[ALU_COUNT_MUL, ALU_COUNT, ALU_COUNT, ALU_COUNT, ALU_COUNT, ALU_COUNT]

/-- `is_rotation`. -/
def isRotation (opcode : Nat) : Bool := opcode == ROR || opcode == ROL

/-- The variables of a round, and those of the rounds before that go on. -/
structure Round where
  latency : Vector Nat 9
  asicLatency : Vector Nat 9
  instData : Vector UInt32 9
  aluBusy : Vector (Vector Bool ALU_COUNT) (TOTAL_LATENCY + 1)
  rotated : Vector Bool 4
  rotateCount : Nat
  numRetries : Nat
  codeSize : Nat
  totalIterations : Nat
  r8Used : Bool
  code : Code
  buffer : Buffer

/-- A round begins. -/
def Round.new (code : Code) (buffer : Buffer) : Round where
  latency := Vector.replicate 9 0
  asicLatency := Vector.replicate 9 0
  instData := #v[0, 1, 2, 3, 0xFFFFFF, 0xFFFFFF, 0xFFFFFF, 0xFFFFFF, 0xFFFFFF]
  aluBusy := Vector.replicate _ (Vector.replicate _ false)
  rotated := Vector.replicate 4 false
  rotateCount := 0
  numRetries := 0
  codeSize := 0
  totalIterations := 0
  r8Used := false
  code
  buffer

/-- The opcode that a byte stands for, with another byte for a rotation. -/
def opcodeOf (c : UInt8) (d : Buffer) : Except Fault (Nat × Buffer) := do
  let opcode := c.toNat % 8
  if opcode = 5 then
    let x ← nextByte refresh d
    return (if x.1.toInt8 ≥ 0 then ROR else ROL, x.2)
  else if opcode ≥ 6 then return (XOR, d)
  else return (if opcode ≤ 2 then MUL else opcode - 2, d)

/-- The operands that a byte stands for. -/
def operandsOf (c : UInt8) (opcode : Nat) : Nat × Nat :=
  let a := c.toNat / 8 % 4
  let b := c.toNat / 32 % 8
  if (opcode = ADD ∨ opcode = SUB ∨ opcode = XOR) ∧ a = b then (a, 8) else (a, b)

namespace Round

variable (s : Round)

/-- Whether a unit is taken in a cycle. -/
def busy (cycle alu : Nat) : Except Fault Bool := do
  let row ← s.aluBusy.fetch .bounds cycle
  row.fetch .bounds alu

/-- A unit that is free in a cycle, among the first `n`. -/
def freeAlu (opcode cycle : Nat) : (n : Nat) → Except Fault (Option Nat)
  | 0 => .ok none
  | i + 1 => do
      if ← s.busy cycle i then freeAlu opcode cycle i
      else if ← (if opcode = ADD then s.busy (cycle + 1) i else .ok false) then
        freeAlu opcode cycle i
      else
        let l ← opLatency.fetch .bounds opcode
        if isRotation opcode ∧ cycle < s.rotateCount * l then freeAlu opcode cycle i
        else return some i

/-- The first cycle with a free unit, in `fuel` steps. -/
def findAlu (opcode : Nat) : (fuel cycle : Nat) → Except Fault (Nat × Option Nat)
  | 0, _ => .error .stuck
  | fuel + 1, cycle =>
      if cycle < TOTAL_LATENCY then do
        let n ← opALUs.fetch .bounds opcode
        match ← s.freeAlu opcode cycle n with
        | some alu => return (cycle, some alu)
        | none => findAlu opcode fuel (cycle + 1)
      else .ok (cycle, none)

/-- A unit is taken in a cycle. -/
def claim (cycle alu : Nat) : Except Fault Round := do
  if ← s.busy cycle alu then throw .claimed
  else
    let row ← s.aluBusy.fetch .bounds cycle
    return { s with aluBusy := ← s.aluBusy.store .bounds cycle (← row.store .bounds alu true) }

/-- What `inst_data` has for an instruction. -/
def source (opcode b : Nat) : Except Fault UInt32 := do
  let x ← s.instData.fetch .bounds b
  return (UInt32.ofNat opcode <<< 8) + ((x &&& 255) <<< 16)

/-- A second rotation of a register, with no other instruction between. -/
def rotatesAgain (opcode a : Nat) : Except Fault Bool :=
  if isRotation opcode then s.rotated.fetch .bounds a else .ok false

/-- A second instruction with the same source, which could be made one with the first. -/
def repeats (opcode a b : Nat) : Except Fault Bool :=
  if opcode ≠ MUL then do
    let x ← s.instData.fetch .bounds a
    let y ← s.source opcode b
    return (x &&& 0xFFFF00) == y
  else .ok false

/-- An instruction is issued in a cycle. -/
def issue (opcode a b cycle : Nat) (alu : Option Nat) : Except Fault Round := do
  let alu ← match alu with
    | some alu => .ok alu
    | none => .error .noAlu
  let s := { s with rotateCount := if isRotation opcode then s.rotateCount + 1 else s.rotateCount }
  let s ← s.claim cycle alu
  let l ← opLatency.fetch .bounds opcode
  let latency ← s.latency.store .bounds a (cycle + l)
  let asicA ← s.asicLatency.fetch .bounds a
  let asicB ← s.asicLatency.fetch .bounds b
  let asicL ← asicOpLatency.fetch .bounds opcode
  let asicLatency ← s.asicLatency.store .bounds a (max asicA asicB + asicL)
  let rotated ← s.rotated.store .bounds a (isRotation opcode)
  let x ← s.source opcode b
  let instData ← s.instData.store .bounds a (.ofNat s.codeSize + x)
  let code ← s.code.store .bounds s.codeSize ⟨opcode, a, b, 0⟩
  let s := { s with latency, asicLatency, rotated, instData, code, r8Used := s.r8Used || b == 8 }
  if opcode = ADD then
    let s ← s.claim (cycle + 1) alu
    let t ← nextWord refresh s.buffer
    let code ← s.code.store .bounds s.codeSize ⟨opcode, a, b, t.1⟩
    return { s with code, buffer := t.2, codeSize := s.codeSize + 1 }
  else return { s with codeSize := s.codeSize + 1 }

/-- An iteration of the first phase: an instruction is drawn, and issued if it fits. -/
def iterate : Except Fault Round := do
  let c ← nextByte refresh s.buffer
  let op ← opcodeOf refresh c.1 c.2
  let opcode := op.1
  let s := { s with buffer := op.2 }
  let a := (operandsOf c.1 opcode).1
  let b := (operandsOf c.1 opcode).2
  if ← s.rotatesAgain opcode a then return s
  else if ← s.repeats opcode a b then return s
  else
    let la ← s.latency.fetch .bounds a
    let lb ← s.latency.fetch .bounds b
    let found ← s.findAlu opcode (TOTAL_LATENCY + 1) (max la lb)
    let cycle := found.1
    if cycle > la + 7 then return s
    else
      let l ← opLatency.fetch .bounds opcode
      if cycle + l ≤ TOTAL_LATENCY then s.issue refresh opcode a b cycle found.2
      else return { s with numRetries := s.numRetries + 1 }

/-- The first phase, in `fuel` tests of its condition.  It ends at once when the program is long
enough, and after 256 iterations. -/
def firstPhase : (fuel : Nat) → Round → Except Fault Round
  | 0, _ => .error .stuck
  | fuel + 1, s =>
      if (s.latency[0] < TOTAL_LATENCY ∨ s.latency[1] < TOTAL_LATENCY ∨
          s.latency[2] < TOTAL_LATENCY ∨ s.latency[3] < TOTAL_LATENCY) ∧ s.numRetries < 64 then
        let s := { s with totalIterations := s.totalIterations + 1 }
        if s.totalIterations > 256 then .ok s
        else do
          let s ← s.iterate refresh
          if s.codeSize ≥ NUM_INSTRUCTIONS_MIN then return s else firstPhase fuel s
      else .ok s

/-! ## The second phase -/

/-- The variable registers with the least and the greatest latency. -/
def extremes (latency : Vector Nat 9) : Fin 4 × Fin 4 :=
  [1, 2, 3].foldl (fun x i => (if latency[i] < latency[x.1] then i else x.1,
    if latency[i] > latency[x.2] then i else x.2)) (0, 0)

/-- An instruction that takes the register with the least latency past the others. -/
def extend (prevCodeSize : Nat) : Except Fault Round := do
  let minIdx := (extremes s.asicLatency).1
  let maxIdx := (extremes s.asicLatency).2
  let opcode ← #v[ROR, MUL, MUL].fetch .bounds ((s.codeSize - prevCodeSize) % 3)
  let l ← opLatency.fetch .bounds opcode
  let asicL ← asicOpLatency.fetch .bounds opcode
  let latency ← s.latency.store .bounds minIdx (s.latency[maxIdx] + l)
  let asicLatency ← s.asicLatency.store .bounds minIdx (s.asicLatency[maxIdx] + asicL)
  let code ← s.code.store .bounds s.codeSize ⟨opcode, minIdx, maxIdx, 0⟩
  return { s with latency, asicLatency, code, codeSize := s.codeSize + 1 }

/-- The second phase, in `fuel` tests of its condition. -/
def secondPhase (prevCodeSize : Nat) : (fuel : Nat) → Round → Except Fault Round
  | 0, _ => .error .stuck
  | fuel + 1, s =>
      if s.codeSize < NUM_INSTRUCTIONS_MAX ∧ s.asicLatency[0] < TOTAL_LATENCY ∧
          s.asicLatency[1] < TOTAL_LATENCY ∧ s.asicLatency[2] < TOTAL_LATENCY ∧
          s.asicLatency[3] < TOTAL_LATENCY then do
        let s ← s.extend prevCodeSize
        secondPhase prevCodeSize fuel s
      else .ok s

end Round

/-! ## Rounds -/

/-- A round. -/
def round (code : Code) (buffer : Buffer) : Except Fault Round := do
  let s ← Round.firstPhase refresh 257 (.new code buffer)
  Round.secondPhase s.codeSize 71 s

/-- Rounds until a program uses register 8 and has the right size. -/
def generate : (rounds : Nat) → Code → Buffer → Except Fault (Code × Nat)
  | 0, _, _ => .error .running
  | rounds + 1, code, buffer => do
      let s ← round refresh code buffer
      if !s.r8Used ∨ s.codeSize < NUM_INSTRUCTIONS_MIN ∨ s.codeSize > NUM_INSTRUCTIONS_MAX then
        generate rounds s.code s.buffer
      else
        let code ← s.code.store .bounds s.codeSize ⟨RET, 0, 0, 0⟩
        return (code, s.codeSize)

/-- The bytes that a height gives. -/
def seed (a : Algorithm) (height : UInt64) : Vector UInt8 32 :=
  .ofFn fun i =>
    if i.val < 8 then (height >>> .ofNat (8 * i.val)).toUInt8
    else if i.val = 20 ∧ a = .CN_R then (-38 : Int8).toUInt8
    else 0

/-- `v4_random_math_init`, where at most `rounds` rounds are looked at; `code` is what the array
held before. -/
def v4RandomMathInit (a : Algorithm) (rounds : Nat) (code : Code) (height : UInt64) :
    Except Fault (Code × Nat) :=
  generate refresh rounds code ⟨seed a height, 32⟩

end

/-! ## Well-formed programs -/

namespace Instruction

variable (op : Instruction)

/-- An instruction of the right form, other than `RET`. -/
def Ordinary : Prop :=
  op.opcode < RET ∧ op.dstIndex < 4 ∧ op.srcIndex < 9 ∧ (op.opcode ≠ ADD → op.C = 0)

/-- The operands differ where the instruction could be left out otherwise. -/
def Distinct : Prop :=
  op.opcode = ADD ∨ op.opcode = SUB ∨ op.opcode = XOR → op.srcIndex ≠ op.dstIndex

end Instruction

/-- The first `n` instructions are as they should be. -/
def Drawn (code : Code) (n : Nat) : Prop :=
  ∀ i : Fin (NUM_INSTRUCTIONS_MAX + 1), i < n → code[i].Ordinary ∧ code[i].Distinct

/-- A program of `size` instructions that uses register 8, and ends there. -/
structure WellFormed (code : Code) (size : Nat) : Prop where
  min_le : NUM_INSTRUCTIONS_MIN ≤ size
  le_max : size ≤ NUM_INSTRUCTIONS_MAX
  ordinary_iff : ∀ i : Fin (NUM_INSTRUCTIONS_MAX + 1), i ≤ size → (code[i].Ordinary ↔ i < size)
  distinct : ∀ i : Fin (NUM_INSTRUCTIONS_MAX + 1), i < size → code[i].Distinct
  r8 : ∃ i : Fin (NUM_INSTRUCTIONS_MAX + 1), i < size ∧ code[i].srcIndex = 8
  ret : ∀ i : Fin (NUM_INSTRUCTIONS_MAX + 1), i = size → code[i] = ⟨RET, 0, 0, 0⟩

theorem Drawn.set {code : Code} {n : Nat} {op : Instruction} (h : Drawn code n)
    (hn : n < NUM_INSTRUCTIONS_MAX + 1) (hord : op.Ordinary) (hdist : op.Distinct) :
    Drawn (code.set n op hn) (n + 1) := by
  intro i hi
  by_cases heq : n = i
  · simp only [Fin.getElem_fin, heq, Vector.getElem_set_self]
    exact ⟨hord, hdist⟩
  · simp only [Fin.getElem_fin, Vector.getElem_set_ne hn i.isLt heq]
    exact h i (by omega)

/-! ## Bytes and operands -/

variable {refresh : Vector UInt8 32 → Vector UInt8 32} {s : Round} {opcode cycle : Nat}

/-- There are as many bytes as are needed. -/
theorem dataIndex_checkData (refresh : Vector UInt8 32 → Vector UInt8 32) (d : Buffer) {n : Nat} (hn : n ≤ 32) :
    (checkData refresh d n).dataIndex + n ≤ 32 := by
  rw [checkData]
  split
  · simpa using hn
  · omega

theorem sure_nextByte (d : Buffer) : (nextByte refresh d).Sure fun _ => True := by
  have hd := dataIndex_checkData refresh d (n := 1) (by omega)
  exact (Vector.sure_fetch (by omega)).bind fun _ _ => trivial

theorem sure_nextWord (d : Buffer) : (nextWord refresh d).Sure fun _ => True := by
  have hd := dataIndex_checkData refresh d (n := 4) (by omega)
  refine (Vector.sure_fetch (by omega)).bind fun _ _ => ?_
  refine (Vector.sure_fetch (by omega)).bind fun _ _ => ?_
  refine (Vector.sure_fetch (by omega)).bind fun _ _ => ?_
  exact (Vector.sure_fetch (by omega)).bind fun _ _ => trivial

theorem sure_opcodeOf (c : UInt8) (d : Buffer) :
    (opcodeOf refresh c d).Sure fun x => x.1 < 6 := by
  rw [opcodeOf]
  refine Except.sure_ite (fun _ => ?_) fun h5 => ?_
  · refine (sure_nextByte d).bind fun x _ => ?_
    simp only [Except.sure_pure]
    split <;> decide
  · refine Except.sure_ite (fun _ => (by decide : XOR < 6)) fun h6 => ?_
    simp only [Except.sure_pure, MUL]
    split <;> omega

theorem operandsOf_lt (c : UInt8) (opcode : Nat) :
    (operandsOf c opcode).1 < 4 ∧ (operandsOf c opcode).2 < 9 := by
  rw [operandsOf]
  split
  · exact ⟨by omega, by omega⟩
  · exact ⟨by omega, by omega⟩

theorem operandsOf_ne (c : UInt8) (h : opcode = ADD ∨ opcode = SUB ∨ opcode = XOR) :
    (operandsOf c opcode).2 ≠ (operandsOf c opcode).1 := by
  rw [operandsOf]
  split
  · show 8 ≠ c.toNat / 8 % 4
    omega
  · next hne => exact fun heq => hne ⟨h, heq.symm⟩

/-! ## Units -/

namespace Round

/-- A unit is free in a cycle. -/
def Free (s : Round) (cycle alu : Nat) : Prop := s.busy cycle alu = .ok false

theorem sure_busy {alu : Nat} (hc : cycle ≤ TOTAL_LATENCY) (ha : alu < ALU_COUNT) :
    (s.busy cycle alu).Sure fun b => s.busy cycle alu = .ok b := by
  have hbusy : (s.busy cycle alu).Sure fun _ => True :=
    (Vector.sure_fetch (by omega)).bind fun row _ => (Vector.sure_fetch ha).mono fun _ _ => trivial
  exact (Except.sure_self hbusy).mono fun _ h => h.1

/-- A unit that is found is free when it is needed. -/
theorem sure_freeAlu (hop : opcode < 6) (hc : cycle < TOTAL_LATENCY) {n : Nat}
    (hn : n ≤ ALU_COUNT) : (s.freeAlu opcode cycle n).Sure fun x => ∀ alu, x = some alu →
      alu < ALU_COUNT ∧ s.Free cycle alu ∧ (opcode = ADD → s.Free (cycle + 1) alu) := by
  induction n with
  | zero =>
      intro alu h
      contradiction
  | succ i ih =>
      have hrest := ih (by omega)
      refine (sure_busy (s := s) (by omega) (by omega)).bind fun b hb => ?_
      refine Except.sure_ite (fun _ => hrest) fun hfree => ?_
      have hnext : (if opcode = ADD then s.busy (cycle + 1) i else .ok false).Sure
          fun b => opcode = ADD → s.busy (cycle + 1) i = .ok b := by
        refine Except.sure_ite (fun hadd => ?_) fun hadd h => absurd h hadd
        exact (sure_busy (by omega) (by omega)).mono fun _ h _ => h
      refine hnext.bind fun b' hb' => ?_
      refine Except.sure_ite (fun _ => hrest) fun hfree' => ?_
      refine (Vector.sure_fetch hop).bind fun l _ => ?_
      refine Except.sure_ite (fun _ => hrest) fun _ => ?_
      rintro alu ⟨⟩
      simp only [Bool.not_eq_true] at hfree hfree'
      subst hfree hfree'
      exact ⟨by omega, hb, hb'⟩

theorem opALUs_le (h : opcode < 6) : opALUs[opcode] ≤ ALU_COUNT := by
  have hall : ∀ i : Fin 6, opALUs.get i ≤ ALU_COUNT := by decide
  exact hall ⟨opcode, h⟩

theorem opLatency_pos (h : opcode < 6) : 0 < opLatency[opcode] := by
  have hall : ∀ i : Fin 6, 0 < opLatency.get i := by decide
  exact hall ⟨opcode, h⟩

/-- Either no cycle is left, or a unit was found. -/
theorem sure_findAlu (hop : opcode < 6) {fuel : Nat} (hpos : 0 < fuel)
    (hfuel : TOTAL_LATENCY < fuel + cycle) :
    (s.findAlu opcode fuel cycle).Sure fun x => (x.2 = none → TOTAL_LATENCY ≤ x.1) ∧
      ∀ alu, x.2 = some alu → alu < ALU_COUNT ∧ x.1 < TOTAL_LATENCY ∧ s.Free x.1 alu ∧
        (opcode = ADD → s.Free (x.1 + 1) alu) := by
  induction fuel generalizing cycle with
  | zero => omega
  | succ fuel ih =>
      refine Except.sure_ite (fun hlt => ?_) fun hge => ?_
      · refine (Vector.sure_fetch hop).bind fun n hn => ?_
        refine (sure_freeAlu hop hlt (hn ▸ opALUs_le hop)).bind fun alu halu => ?_
        cases alu with
        | none => exact ih (by omega) (by omega)
        | some alu =>
            refine ⟨fun h => (by cases h), fun alu' h => ?_⟩
            obtain rfl := Option.some.inj h
            exact ⟨(halu alu rfl).1, hlt, (halu alu rfl).2⟩
      · exact ⟨fun _ => by omega, fun alu h => by cases h⟩

theorem Free.congr {t : Round} {alu : Nat} (hs : t.aluBusy = s.aluBusy) (h : s.Free cycle alu) :
    t.Free cycle alu := by
  rw [Free, busy] at h ⊢
  rw [hs]
  exact h

/-- A unit is taken, and the other cycles stay as they are. -/
theorem sure_claim {t : Round} {alu : Nat} (hc : cycle ≤ TOTAL_LATENCY) (ha : alu < ALU_COUNT)
    (hs : t.aluBusy = s.aluBusy) (hfree : s.Free cycle alu) : (t.claim cycle alu).Sure fun t' =>
      (∃ aluBusy, t' = { t with aluBusy }) ∧ ∀ c i, c ≠ cycle → s.Free c i → t'.Free c i := by
  rw [claim, hfree.congr hs]
  refine (Vector.sure_fetch (by omega)).bind fun row _ => ?_
  refine (Vector.sure_store ha).bind fun row' _ => ?_
  refine (Vector.sure_store (by omega)).bind fun aluBusy hbusy => ?_
  refine ⟨⟨aluBusy, rfl⟩, fun c i hne hci => ?_⟩
  have htci : t.Free c i := hci.congr hs
  rw [Free, busy] at htci ⊢
  rw [hbusy, Vector.fetch_set_ne _ (Ne.symm hne)]
  exact htci

/-! ## An iteration -/

/-- What holds between the iterations. -/
structure Inv (s : Round) : Prop where
  drawn : Drawn s.code s.codeSize
  r8 : s.r8Used = true →
    ∃ i : Fin (NUM_INSTRUCTIONS_MAX + 1), i < s.codeSize ∧ s.code[i].srcIndex = 8

theorem inv_new (code : Code) (buffer : Buffer) : Inv (.new code buffer) where
  drawn i hi := absurd hi (by simp [new])
  r8 h := by cases h

/-- An instruction is added. -/
theorem Inv.push {t : Round} (op : Instruction) (h : s.Inv)
    (hn : s.codeSize < NUM_INSTRUCTIONS_MAX + 1)
    (hord : op.Ordinary) (hdist : op.Distinct) (hcode : t.code = s.code.set s.codeSize op hn)
    (hsize : t.codeSize = s.codeSize + 1) (hr8 : t.r8Used = (s.r8Used || op.srcIndex == 8)) :
    t.Inv := by
  refine ⟨?_, fun hused => ?_⟩
  · rw [hcode, hsize]
    exact h.drawn.set hn hord hdist
  · rw [hcode, hsize]
    by_cases hop : op.srcIndex = 8
    · refine ⟨⟨s.codeSize, hn⟩, Nat.lt_succ_self _, ?_⟩
      simpa using hop
    · have hold : s.r8Used = true := by simpa [hr8, hop] using hused
      obtain ⟨i, hi, hsrc⟩ := h.r8 hold
      refine ⟨i, by omega, ?_⟩
      simpa [Vector.getElem_set_ne hn i.isLt (by omega)] using hsrc

theorem sure_source {b : Nat} (hb : b < 9) : (s.source opcode b).Sure fun _ => True :=
  (Vector.sure_fetch hb).bind fun _ _ => trivial

theorem sure_rotatesAgain {a : Nat} (ha : a < 4) :
    (s.rotatesAgain opcode a).Sure fun _ => True :=
  Except.sure_ite (fun _ => (Vector.sure_fetch ha).mono fun _ _ => trivial) fun _ => trivial

theorem sure_repeats {a b : Nat} (ha : a < 4) (hb : b < 9) :
    (s.repeats opcode a b).Sure fun _ => True := by
  refine Except.sure_ite (fun _ => ?_) fun _ => trivial
  refine (Vector.sure_fetch (by omega)).bind fun _ _ => ?_
  exact (sure_source hb).bind fun _ _ => trivial

/-- An instruction that is issued in a cycle with a free unit is added. -/
theorem sure_issue {a b alu : Nat} (hop : opcode < 6) (ha : a < 4) (hb : b < 9)
    (hdist : opcode = ADD ∨ opcode = SUB ∨ opcode = XOR → b ≠ a) (halu : alu < ALU_COUNT)
    (hc : cycle < TOTAL_LATENCY) (hfree : s.Free cycle alu)
    (hfree' : opcode = ADD → s.Free (cycle + 1) alu) (hn : s.codeSize < NUM_INSTRUCTIONS_MIN)
    (h : s.Inv) : (s.issue refresh opcode a b cycle (some alu)).Sure fun t =>
      t.Inv ∧ t.codeSize = s.codeSize + 1 ∧ t.totalIterations = s.totalIterations := by
  have hroom : s.codeSize < NUM_INSTRUCTIONS_MAX + 1 := hn.trans (by decide)
  refine Except.Sure.bind (P := fun x => alu = x) rfl ?_
  rintro _ rfl
  refine Except.Sure.bind (sure_claim (by omega) halu rfl hfree) ?_
  rintro _ ⟨⟨aluBusy, rfl⟩, hkeep⟩
  refine (Vector.sure_fetch hop).bind fun l _ => ?_
  refine (Vector.sure_store (by omega)).bind fun latency _ => ?_
  refine (Vector.sure_fetch (by omega)).bind fun asicA _ => ?_
  refine (Vector.sure_fetch hb).bind fun asicB _ => ?_
  refine (Vector.sure_fetch hop).bind fun asicL _ => ?_
  refine (Vector.sure_store (by omega)).bind fun asicLatency _ => ?_
  refine (Vector.sure_store ha).bind fun rotated _ => ?_
  refine (sure_source hb).bind fun x _ => ?_
  refine (Vector.sure_store (by omega)).bind fun instData _ => ?_
  refine (Vector.sure_store hroom).bind fun code hcode => ?_
  refine Except.sure_ite (fun hadd => ?_) fun hadd => ?_
  · have hnext := hkeep (cycle + 1) alu (by omega) (hfree' hadd)
    refine Except.Sure.bind (sure_claim (by omega) halu rfl hnext) ?_
    rintro _ ⟨⟨aluBusy', rfl⟩, -⟩
    refine (sure_nextWord _).bind fun t _ => ?_
    refine (Vector.sure_store hroom).bind fun code' hcode' => ?_
    have hset : code' = s.code.set s.codeSize ⟨opcode, a, b, t.1⟩ hroom := by
      rw [hcode', hcode, Vector.set_set]
    exact ⟨h.push ⟨opcode, a, b, t.1⟩ hroom ⟨hop, ha, hb, fun hne => absurd hadd hne⟩ hdist
      hset rfl rfl, rfl, rfl⟩
  · exact ⟨h.push ⟨opcode, a, b, 0⟩ hroom ⟨hop, ha, hb, fun _ => rfl⟩ hdist hcode rfl rfl,
      rfl, rfl⟩

/-- An iteration draws one instruction at most. -/
theorem sure_iterate (hn : s.codeSize < NUM_INSTRUCTIONS_MIN) (h : s.Inv) :
    (s.iterate refresh).Sure fun t =>
      t.Inv ∧ t.codeSize ≤ s.codeSize + 1 ∧ t.totalIterations = s.totalIterations := by
  have hskip : ∀ t : Round, t.code = s.code → t.codeSize = s.codeSize → t.r8Used = s.r8Used →
      t.totalIterations = s.totalIterations →
      t.Inv ∧ t.codeSize ≤ s.codeSize + 1 ∧ t.totalIterations = s.totalIterations := by
    intro t hcode hsize hr8 htotal
    refine ⟨⟨?_, ?_⟩, by omega, htotal⟩
    · rw [hcode, hsize]
      exact h.drawn
    · rw [hcode, hsize, hr8]
      exact h.r8
  refine (sure_nextByte _).bind fun c _ => ?_
  refine (sure_opcodeOf _ _).bind fun op hop => ?_
  obtain ⟨ha, hb⟩ := operandsOf_lt c.1 op.1
  have hdist := @operandsOf_ne op.1 c.1
  refine (sure_rotatesAgain ha).bind fun again _ => ?_
  refine Except.sure_ite (fun _ => hskip _ rfl rfl rfl rfl) fun _ => ?_
  refine (sure_repeats ha hb).bind fun same _ => ?_
  refine Except.sure_ite (fun _ => hskip _ rfl rfl rfl rfl) fun _ => ?_
  refine (Vector.sure_fetch (by omega)).bind fun la _ => ?_
  refine (Vector.sure_fetch hb).bind fun lb _ => ?_
  refine (sure_findAlu hop (by omega) (by omega)).bind fun found hfound => ?_
  refine Except.sure_ite (fun _ => hskip _ rfl rfl rfl rfl) fun _ => ?_
  refine (Vector.sure_fetch hop).bind fun l hl => ?_
  refine Except.sure_ite (fun hle => ?_) fun _ => hskip _ rfl rfl rfl rfl
  have hpos := opLatency_pos hop
  obtain ⟨cycle, alu⟩ := found
  cases alu with
  | none =>
      -- The search has ended at the last cycle, where nothing can be issued.
      have hend : TOTAL_LATENCY ≤ cycle := hfound.1 rfl
      simp only at hle
      omega
  | some alu =>
      obtain ⟨halu, hlt, hfree, hfree'⟩ := hfound.2 alu rfl
      refine Except.Sure.mono (sure_issue hop ha hb hdist halu hlt hfree hfree' hn ?_) ?_
      · exact ⟨h.drawn, h.r8⟩
      · exact fun t ht => ⟨ht.1, ht.2.1.le, ht.2.2⟩

/-! ## The phases -/

/-- The first phase ends after 256 iterations at the latest. -/
theorem sure_firstPhase {fuel : Nat} (hfuel : fuel + s.totalIterations = 257)
    (hpos : 0 < fuel) (hn : s.codeSize < NUM_INSTRUCTIONS_MIN) (h : s.Inv) :
    (firstPhase refresh fuel s).Sure fun t => t.Inv ∧ t.codeSize ≤ NUM_INSTRUCTIONS_MIN := by
  induction fuel generalizing s with
  | zero => contradiction
  | succ fuel ih =>
      refine Except.sure_ite (fun _ => ?_) fun _ => ⟨h, hn.le⟩
      refine Except.sure_ite (fun _ => ⟨⟨h.drawn, h.r8⟩, hn.le⟩) fun htotal => ?_
      refine Except.Sure.bind (sure_iterate hn ⟨h.drawn, h.r8⟩) fun t ht => ?_
      obtain ⟨hinv, hsize, htot⟩ := ht
      simp only at hsize htot htotal
      refine Except.sure_ite (fun _ => ⟨hinv, by omega⟩) fun hlt => ?_
      exact ih (by omega) (by omega) (by omega) hinv

theorem pattern_cases (n : Nat) : ∃ h : n % 3 < 3, #v[ROR, MUL, MUL][n % 3] = ROR ∨
    #v[ROR, MUL, MUL][n % 3] = MUL := by
  have hall : ∀ i : Fin 3, #v[ROR, MUL, MUL].get i = ROR ∨ #v[ROR, MUL, MUL].get i = MUL := by
    decide
  exact ⟨Nat.mod_lt _ (by decide), hall ⟨n % 3, Nat.mod_lt _ (by decide)⟩⟩

/-- The second phase adds a multiplication or a rotation. -/
theorem sure_extend {prevCodeSize : Nat} (hn : s.codeSize < NUM_INSTRUCTIONS_MAX) (h : s.Inv) :
    (s.extend prevCodeSize).Sure fun t => t.Inv ∧ t.codeSize = s.codeSize + 1 := by
  have hroom : s.codeSize < NUM_INSTRUCTIONS_MAX + 1 := by omega
  obtain ⟨hmod, hpattern⟩ := pattern_cases (s.codeSize - prevCodeSize)
  have hmin := (extremes s.asicLatency).1.isLt
  have hmax := (extremes s.asicLatency).2.isLt
  refine (Vector.sure_fetch hmod).bind fun opcode hop => ?_
  rw [← hop] at hpattern
  have hlt : opcode < 6 := by
    rcases hpattern with rfl | rfl
    · decide
    · decide
  refine (Vector.sure_fetch hlt).bind fun l _ => ?_
  refine (Vector.sure_fetch hlt).bind fun asicL _ => ?_
  refine (Vector.sure_store (by omega)).bind fun latency _ => ?_
  refine (Vector.sure_store (by omega)).bind fun asicLatency _ => ?_
  refine (Vector.sure_store hroom).bind fun code hcode => ?_
  have hord : Instruction.Ordinary ⟨opcode, _, _, 0⟩ :=
    ⟨hlt, hmin, hmax.trans (by omega), fun _ => rfl⟩
  refine ⟨h.push _ hroom hord ?_ hcode rfl ?_, rfl⟩
  · rintro (rfl | rfl | rfl) <;> contradiction
  · have hne : ((extremes s.asicLatency).2.val == 8) = false := by
      rw [beq_eq_false_iff_ne]
      omega
    simp only [hne, Bool.or_false]

theorem sure_secondPhase {prevCodeSize fuel : Nat} (hfuel : 70 < fuel + s.codeSize)
    (hn : s.codeSize ≤ NUM_INSTRUCTIONS_MAX) (h : s.Inv) :
    (secondPhase prevCodeSize fuel s).Sure fun t =>
      t.Inv ∧ t.codeSize ≤ NUM_INSTRUCTIONS_MAX := by
  have hmax : NUM_INSTRUCTIONS_MAX = 70 := rfl
  induction fuel generalizing s with
  | zero => omega
  | succ fuel ih =>
      refine Except.sure_ite (fun hc => ?_) fun _ => ⟨h, hn⟩
      refine (sure_extend hc.1 h).bind fun t ht => ?_
      exact ih (by omega) (by omega) ht.1

end Round

theorem sure_round (refresh : Vector UInt8 32 → Vector UInt8 32) (code : Code) (buffer : Buffer) :
    (round refresh code buffer).Sure fun s => s.Inv ∧ s.codeSize ≤ NUM_INSTRUCTIONS_MAX := by
  have hmin : NUM_INSTRUCTIONS_MIN ≤ NUM_INSTRUCTIONS_MAX := by decide
  have hfirst : (Round.firstPhase refresh 257 (.new code buffer)).Sure fun t =>
      t.Inv ∧ t.codeSize ≤ NUM_INSTRUCTIONS_MIN :=
    Round.sure_firstPhase rfl (by omega) (Nat.succ_pos 59) (Round.inv_new ..)
  refine hfirst.bind fun s hs => ?_
  exact Round.sure_secondPhase (by omega) (hs.2.trans hmin) hs.1

/-- The program that is returned. -/
theorem wellFormed_set {s : Round} (h : s.Inv) (hr8 : s.r8Used = true)
    (hmin : NUM_INSTRUCTIONS_MIN ≤ s.codeSize) (hmax : s.codeSize ≤ NUM_INSTRUCTIONS_MAX) :
    WellFormed (s.code.set s.codeSize ⟨RET, 0, 0, 0⟩ (Nat.lt_succ_of_le hmax)) s.codeSize := by
  have hret : ∀ i : Fin (NUM_INSTRUCTIONS_MAX + 1), i = s.codeSize →
      (s.code.set s.codeSize ⟨RET, 0, 0, 0⟩ (Nat.lt_succ_of_le hmax))[i] = ⟨RET, 0, 0, 0⟩ := by
    rintro ⟨i, hi⟩ rfl
    simp
  have hkeep : ∀ i : Fin (NUM_INSTRUCTIONS_MAX + 1), i < s.codeSize →
      (s.code.set s.codeSize ⟨RET, 0, 0, 0⟩ (Nat.lt_succ_of_le hmax))[i] = s.code[i] := by
    intro i hi
    simp [Vector.getElem_set_ne _ i.isLt (show s.codeSize ≠ i by omega)]
  refine ⟨hmin, hmax, fun i hi => ?_, fun i hi => ?_, ?_, fun i hi => ?_⟩
  · rcases Nat.lt_or_eq_of_le hi with hlt | heq
    · rw [hkeep i hlt]
      exact iff_of_true (h.drawn i hlt).1 hlt
    · rw [hret i heq]
      exact iff_of_false (fun hord => absurd hord.1 (Nat.lt_irrefl _)) (by omega)
  · rw [hkeep i hi]
    exact (h.drawn i hi).2
  · obtain ⟨i, hi, hsrc⟩ := h.r8 hr8
    exact ⟨i, hi, by rw [hkeep i hi]; exact hsrc⟩
  · exact hret i hi

/-- Whatever bytes are drawn, only the number of rounds keeps the generator from a program that is
well formed. -/
theorem generate_cases (refresh : Vector UInt8 32 → Vector UInt8 32) (rounds : Nat) (code : Code)
    (buffer : Buffer) :
    generate refresh rounds code buffer = .error .running ∨
      (generate refresh rounds code buffer).Sure fun x => WellFormed x.1 x.2 := by
  induction rounds generalizing code buffer with
  | zero => exact .inl rfl
  | succ rounds ih =>
      obtain ⟨s, hs, hinv, hmax⟩ := Except.sure_iff.mp (sure_round refresh code buffer)
      have hstep : generate refresh (rounds + 1) code buffer =
          if !s.r8Used ∨ s.codeSize < NUM_INSTRUCTIONS_MIN ∨ s.codeSize > NUM_INSTRUCTIONS_MAX then
            generate refresh rounds s.code s.buffer
          else do
            let code ← s.code.store .bounds s.codeSize ⟨RET, 0, 0, 0⟩
            return (code, s.codeSize) := by
        rw [generate, hs]
        rfl
      rw [hstep]
      by_cases hagain : !s.r8Used ∨ s.codeSize < NUM_INSTRUCTIONS_MIN ∨
          s.codeSize > NUM_INSTRUCTIONS_MAX
      · rw [if_pos hagain]
        exact ih ..
      · rw [if_neg hagain]
        simp only [Bool.not_eq_true', not_or, Bool.not_eq_false, not_lt] at hagain
        obtain ⟨hr8, hmin, -⟩ := hagain
        refine .inr ((Vector.sure_store (Nat.lt_succ_of_le hmax)).bind ?_)
        rintro _ rfl
        exact wellFormed_set hinv hr8 hmin hmax

/-! ## Runs of a program -/

variable {w : Nat} {r : Vector (BitVec w) 9} {op : Instruction}

/-- An ordinary instruction changes a variable register at most. -/
theorem sure_exec (h : op.Ordinary) : (exec op r).Sure fun x =>
    ∃ r' : Vector (BitVec w) 9, x = some r' ∧ ∀ i : Fin 9, 4 ≤ i.val → r'[i] = r[i] := by
  obtain ⟨hop, hdst, hsrc, -⟩ := h
  have hstore : ∀ v : BitVec w, (do return some (← r.store Fault.bounds op.dstIndex v) :
      Except Fault (Option (Vector (BitVec w) 9))).Sure fun x =>
        ∃ r' : Vector (BitVec w) 9, x = some r' ∧ ∀ i : Fin 9, 4 ≤ i.val → r'[i] = r[i] := by
    intro v
    refine (Vector.sure_store (by omega)).bind ?_
    rintro _ rfl
    refine ⟨_, rfl, fun i hi => ?_⟩
    exact Vector.getElem_set_ne _ i.isLt (by omega)
  refine (Vector.sure_fetch hsrc).bind fun src _ => ?_
  refine (Vector.sure_fetch (by omega)).bind fun dst _ => ?_
  refine Except.sure_ite (fun _ => hstore _) fun hmul => ?_
  refine Except.sure_ite (fun _ => hstore _) fun hadd => ?_
  refine Except.sure_ite (fun _ => hstore _) fun hsub => ?_
  refine Except.sure_ite (fun _ => hstore _) fun hror => ?_
  refine Except.sure_ite (fun _ => hstore _) fun hrol => ?_
  refine Except.sure_ite (fun _ => hstore _) fun hxor => ?_
  simp only [MUL, ADD, SUB, ROR, ROL, XOR, RET] at hmul hadd hsub hror hrol hxor hop
  omega

theorem exec_ret : exec ⟨RET, 0, 0, 0⟩ r = .ok none := rfl

/-- The instructions of a list change the registers one after the other. -/
def Executes : List Instruction → Vector (BitVec w) 9 → Vector (BitVec w) 9 → Prop
  | [], r, r' => r' = r
  | op :: ops, r, r' => ∃ t, exec op r = .ok (some t) ∧ Executes ops t r'

/-- From an instruction on, those up to the end of the program are executed and no others. -/
theorem sure_execFrom {code : Code} {size n i : Nat} (h : WellFormed code size)
    (hi : i ≤ size) (hn : n + i = NUM_INSTRUCTIONS_MAX) (r : Vector (BitVec w) 9) :
    (execFrom code n i r).Sure fun x => x.1 = size ∧
      Executes ((code.toList.take size).drop i) r x.2 ∧ ∀ j : Fin 9, 4 ≤ j.val → x.2[j] = r[j] := by
  have hmax := h.le_max
  have hlen : (code.toList.take size).length = size := by
    rw [List.length_take, Vector.length_toList]
    omega
  induction n generalizing i r with
  | zero =>
      obtain rfl : i = size := by omega
      refine ⟨rfl, ?_, fun j _ => rfl⟩
      rw [List.drop_of_length_le hlen.le]
      rfl
  | succ n ih =>
      refine (Vector.sure_fetch (by omega)).bind ?_
      rintro _ rfl
      by_cases hlt : i < size
      · have hord := ((h.ordinary_iff ⟨i, by omega⟩ hi).mpr hlt)
        refine Except.Sure.bind (Except.sure_self (sure_exec hord)) ?_
        rintro _ ⟨hexec, r', rfl, hkeep⟩
        refine (ih (by omega) (by omega) r').mono fun x hx => ?_
        refine ⟨hx.1, ?_, fun j hj => (hx.2.2 j hj).trans (hkeep j hj)⟩
        rw [List.drop_eq_getElem_cons (by omega)]
        refine ⟨r', ?_, hx.2.1⟩
        simpa using hexec
      · obtain rfl : i = size := by omega
        have hret := h.ret ⟨i, by omega⟩ rfl
        simp only [Fin.getElem_fin] at hret
        rw [hret, exec_ret]
        refine ⟨rfl, ?_, fun j _ => rfl⟩
        rw [List.drop_of_length_le hlen.le]
        rfl

/-- Whatever the bytes, the height and the array are, the generator is at work or has made a program
that is well formed; the interpreter then executes its instructions and no others, and leaves the
constant registers alone. -/
theorem v4RandomMathInit_cases (refresh : Vector UInt8 32 → Vector UInt8 32) (a : Algorithm)
    (rounds : Nat) (code : Code) (height : UInt64) :
    v4RandomMathInit refresh a rounds code height = .error .running ∨
      ∃ code' size, v4RandomMathInit refresh a rounds code height = .ok (code', size) ∧
        WellFormed code' size ∧ ∀ (w : Nat) (r : Vector (BitVec w) 9),
          ∃ r', v4RandomMath code' r = .ok (size, r') ∧
            Executes (code'.toList.take size) r r' ∧ ∀ i : Fin 9, 4 ≤ i.val → r'[i] = r[i] := by
  rcases generate_cases refresh rounds code ⟨seed a height, 32⟩ with hrun | hsure
  · exact .inl hrun
  · obtain ⟨⟨code', size⟩, hcode, hwf⟩ := Except.sure_iff.mp hsure
    refine .inr ⟨code', size, hcode, hwf, fun w r => ?_⟩
    obtain ⟨⟨size', r'⟩, hr, rfl, hexec, hkeep⟩ :=
      Except.sure_iff.mp (sure_execFrom hwf (Nat.zero_le _) rfl r)
    exact ⟨r', hr, hexec, hkeep⟩

/-- Some bytes after others. -/
def stir (v : Vector UInt8 32) : Vector UInt8 32 :=
  .ofFn fun i => (v.get i ^^^ (v.get i >>> 3)) * 77 + v.get (i + 1) + 31 * .ofNat i.val + 1

example : (v4RandomMathInit stir .CN_R 1 (Vector.replicate _ ⟨RET, 0, 0, 0⟩) 4).toOption.map
    Prod.snd = some 63 := by
  decide +kernel

end V4

end XLArig
