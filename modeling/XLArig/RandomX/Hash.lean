import XLArig.RandomX
import XLArig.RandomX.Aes

/-!
# XLArig.RandomX.Hash

`crypto/randomx/randomx` and `VmBase`: a hash on its own, and hashes in a pipeline, where the
scratchpad is filled for the next input while the current hash is finished.

What executes a program is left open, and so are Blake2b and yespower with KangarooTwelve
(`RxFunctions`).  A program sees the scratchpad as far as the configuration says, its seed and
the rounding mode, and leaves all registers written.
-/

namespace XLArig

namespace Vec

def ofBytes (bytes : List UInt8) : Vec :=
  let word := fun i =>
    (bytes.getD i 0).toUInt32 ||| (bytes.getD (i + 1) 0).toUInt32 <<< 8 |||
      (bytes.getD (i + 2) 0).toUInt32 <<< 16 ||| (bytes.getD (i + 3) 0).toUInt32 <<< 24
  ⟨word 0, word 4, word 8, word 12⟩

def bytes (v : Vec) : List UInt8 := (List.range 16).map v.byte

end Vec

namespace Block

def ofBytes (bytes : List UInt8) : Block :=
  ⟨.ofBytes bytes, .ofBytes (bytes.drop 16), .ofBytes (bytes.drop 32), .ofBytes (bytes.drop 48)⟩

def bytes (b : Block) : List UInt8 := b.v0.bytes ++ b.v1.bytes ++ b.v2.bytes ++ b.v3.bytes

end Block

/-- `RegisterFile`: the groups of registers have 64 bytes each. -/
structure RegisterFile where
  r : Block
  f : Block
  e : Block
  a : Block

def RegisterFile.bytes (reg : RegisterFile) : List UInt8 :=
  reg.r.bytes ++ reg.f.bytes ++ reg.e.bytes ++ reg.a.bytes

/-- The hash functions, and the execution of a program on a machine that was set up in some
way: with flags, and a dataset or a cache. -/
class RxFunctions where
  blake2b : (outlen : Nat) → List UInt8 → List UInt8
  yespowerK12 : (outlen : Nat) → List UInt8 → List UInt8
  Rounding : Type
  nearest : Rounding
  Setup : Type
  run : (config : Configuration) → Setup → (Fin (config.scratchpadSize / 64) → Block) →
    (seed : Block) → Rounding →
    (Fin (config.scratchpadSize / 64) → Block) × RegisterFile × Rounding

/-- `softAESImpl`: one of the four versions that `SelectSoftAESImpl` measures. -/
inductive SoftAESImpl
  | impl11
  | impl21
  | impl22
  | impl24
  deriving DecidableEq, Repr

section

variable [AesUnit] [RxFunctions]

open RxFunctions

def SoftAESImpl.run : SoftAESImpl → (Nat → Block) → Nat → Block → (Nat → Block) × Block × Block
  | impl11 => hashAndFillAes1Rx4 1 1
  | impl21 => hashAndFillAes1Rx4 2 1
  | impl22 => hashAndFillAes1Rx4 2 2
  | impl24 => hashAndFillAes1Rx4 2 4

/-! ## The machine -/

/-- `randomx_vm`, as far as a hash changes it. -/
structure Vm where
  scratchpad : Nat → Block
  reg : RegisterFile
  rounding : Rounding

/-- What a machine was created with: the current configuration, the setup of the programs, and
whether AES is computed in software. -/
structure VmSetup where
  config : Configuration
  setup : RxFunctions.Setup
  softAes : Bool

namespace Vm

/-- `resetRoundingMode`. -/
def resetRoundingMode (vm : Vm) : Vm := { vm with rounding := nearest }

/-- `run`: the scratchpad outside of the configured size stays as it is. -/
def run (s : VmSetup) (vm : Vm) (seed : Block) : Vm :=
  let x := RxFunctions.run s.config s.setup (fun i => vm.scratchpad i) seed vm.rounding
  { scratchpad := fun i =>
      if h : i < s.config.scratchpadSize / 64 then x.1 ⟨i, h⟩ else vm.scratchpad i
    reg := x.2.1
    rounding := x.2.2 }

/-- The template argument of `VmBase`, where a version is meant. -/
def version (s : VmSetup) : Nat := if s.softAes then 1 else 0

/-- `initScratchpad`, and the seed it writes back. -/
def initScratchpad (s : VmSetup) (vm : Vm) (seed : Block) : Vm × Block :=
  let x := fillAes1Rx4 (version s) seed s.config.scratchpadSize vm.scratchpad
  ({ vm with scratchpad := x.1 }, x.2)

/-- `getFinalResult`. -/
def getFinalResult (s : VmSetup) (vm : Vm) : Vm × List UInt8 :=
  let reg := { vm.reg with
    a := hashAes1Rx4 (version s) vm.scratchpad s.config.scratchpadSize }
  ({ vm with reg }, blake2b 32 reg.bytes)

/-- `hashAndFill`, and the seed it writes back; `impl` is the version in software that is
selected. -/
def hashAndFill (s : VmSetup) (impl : SoftAESImpl) (vm : Vm) (fillState : Block) :
    Vm × List UInt8 × Block :=
  let x :=
    if !s.softAes then hashAndFillAes1Rx4 0 2 vm.scratchpad s.config.scratchpadSize fillState
    else impl.run vm.scratchpad s.config.scratchpadSize fillState
  let reg := { vm.reg with a := x.2.1 }
  ({ vm with
      scratchpad := x.1
      reg }, blake2b 32 reg.bytes, x.2.2)

/-! ## The hash -/

/-- An input, and the algorithm it is hashed with. -/
structure Input where
  algo : Algorithm
  bytes : List UInt8

/-- The first step: `tempHash` of an input. -/
def Input.hash (x : Input) : Block :=
  .ofBytes (match x.algo with
    | .RX_XLA => yespowerK12 64 x.bytes
    | _ => blake2b 64 x.bytes)

/-- The loop over the programs but the last; each has the hash of the registers that the one
before it left for its seed. -/
def chain (s : VmSetup) : Nat → Vm × Block → Vm × Block
  | 0, x => x
  | n + 1, (vm, tempHash) =>
      let vm := vm.run s tempHash
      chain s n (vm, .ofBytes (blake2b 64 vm.reg.bytes))

/-- All programs of a hash, with the rounding mode reset before. -/
def programs (s : VmSetup) (vm : Vm) (tempHash : Block) : Vm :=
  let x := chain s (s.config.programCount - 1) (vm.resetRoundingMode, tempHash)
  x.1.run s x.2

/-- `randomx_calculate_hash`. -/
def calculateHash (s : VmSetup) (vm : Vm) (x : Input) : Vm × List UInt8 :=
  let (vm, tempHash) := vm.initScratchpad s x.hash
  (vm.programs s tempHash).getFinalResult s

/-- `randomx_calculate_hash_first`. -/
def calculateHashFirst (s : VmSetup) (vm : Vm) (x : Input) : Vm × Block :=
  vm.initScratchpad s x.hash

/-- `randomx_calculate_hash_next`. -/
def calculateHashNext (s : VmSetup) (impl : SoftAESImpl) (vm : Vm) (tempHash : Block)
    (next : Input) : Vm × List UInt8 × Block :=
  (vm.programs s tempHash).hashAndFill s impl next.hash

/-- The outputs of a sequence of calls of `randomx_calculate_hash_next`; each may find another
version in software selected. -/
def pipeline (s : VmSetup) : Vm × Block → List (Input × SoftAESImpl) → List (List UInt8)
  | _, [] => []
  | (vm, tempHash), (next, impl) :: rest =>
      let (vm, out, tempHash) := vm.calculateHashNext s impl tempHash next
      out :: pipeline s (vm, tempHash) rest

/-! ## What a hash depends on -/

variable {s : VmSetup} {vm vm' : Vm} {x : Input}

omit [AesUnit] [RxFunctions] in
theorem dvd_scratchpadSize (config : Configuration) : 256 ∣ config.scratchpadSize := by
  cases config <;> decide

/-- The scratchpads agree as far as a program sees them, and so do the rounding modes. -/
structure Agrees (s : VmSetup) (vm vm' : Vm) : Prop where
  scratchpad : ∀ i < s.config.scratchpadSize / 64, vm.scratchpad i = vm'.scratchpad i
  rounding : vm.rounding = vm'.rounding

omit [AesUnit] in
theorem Agrees.run (h : Agrees s vm vm') (seed : Block) :
    Agrees s (vm.run s seed) (vm'.run s seed) ∧ (vm.run s seed).reg = (vm'.run s seed).reg := by
  have hwindow : (fun i : Fin (s.config.scratchpadSize / 64) => vm.scratchpad i) =
      fun i : Fin (s.config.scratchpadSize / 64) => vm'.scratchpad i := funext fun i => h.scratchpad i i.isLt
  refine ⟨⟨fun i hi => ?_, ?_⟩, ?_⟩
  · simp only [Vm.run, hi, dif_pos, hwindow, h.rounding]
  · simp only [Vm.run, hwindow, h.rounding]
  · simp only [Vm.run, hwindow, h.rounding]

omit [AesUnit] in
theorem Agrees.chain (h : Agrees s vm vm') (n : Nat) (tempHash : Block) :
    Agrees s (chain s n (vm, tempHash)).1 (chain s n (vm', tempHash)).1 ∧
      (chain s n (vm, tempHash)).2 = (chain s n (vm', tempHash)).2 := by
  induction n generalizing vm vm' tempHash with
  | zero => exact ⟨h, rfl⟩
  | succ n ih =>
      obtain ⟨hrun, hreg⟩ := h.run tempHash
      unfold Vm.chain
      dsimp only
      rw [hreg]
      exact ih hrun _

omit [AesUnit] in
/-- The programs of a hash depend on the scratchpad and the seed. -/
theorem programs_congr (tempHash : Block)
    (h : ∀ i < s.config.scratchpadSize / 64, vm.scratchpad i = vm'.scratchpad i) :
    Agrees s (vm.programs s tempHash) (vm'.programs s tempHash) ∧
      (vm.programs s tempHash).reg = (vm'.programs s tempHash).reg := by
  have hreset : Agrees s vm.resetRoundingMode vm'.resetRoundingMode := ⟨h, rfl⟩
  obtain ⟨hchain, hseed⟩ := hreset.chain (s.config.programCount - 1) tempHash
  unfold programs
  dsimp only
  rw [hseed]
  exact hchain.run _

/-! ## The pipeline -/

/-- The scratchpad is filled for `x`, and `tempHash` is the seed of the first program. -/
def Filled (s : VmSetup) (x : Input) (p : Vm × Block) : Prop :=
  let n := s.config.scratchpadSize / 64
  (∀ i < n, p.1.scratchpad i = (fillState (version s))^[i + 1] x.hash) ∧
    p.2 = (fillState (version s))^[n] x.hash

theorem filled_initScratchpad (vm : Vm) (x : Input) : Filled s x (vm.initScratchpad s x.hash) := by
  have hsize : 64 ∣ s.config.scratchpadSize := .trans (by decide) (dvd_scratchpadSize _)
  unfold Filled initScratchpad
  dsimp only
  rw [fillAes1Rx4_eq hsize]
  exact ⟨fun i hi => overwrite_apply hi, rfl⟩

/-- Whichever version is selected, the hash is finished and the scratchpad filled with the
version of the machine. -/
theorem hashAndFill_eq (s : VmSetup) (impl : SoftAESImpl) (vm : Vm) (state : Block) :
    (if !s.softAes then hashAndFillAes1Rx4 0 2 vm.scratchpad s.config.scratchpadSize state
      else impl.run vm.scratchpad s.config.scratchpadSize state) =
    (overwrite (fillState (version s)) id vm.scratchpad state (s.config.scratchpadSize / 64),
      hashAes1Rx4 (version s) vm.scratchpad s.config.scratchpadSize,
      (fillState (version s))^[s.config.scratchpadSize / 64] state) := by
  have hsize := dvd_scratchpadSize s.config
  have hsize' : 64 ∣ s.config.scratchpadSize := .trans (by decide) hsize
  have htwo : (2 : Nat) ≠ 0 := by decide
  rw [hashAes1Rx4_eq hsize']
  unfold version
  cases s.softAes with
  | false => simp [hashAndFillAes1Rx4_eq hsize]
  | true =>
      cases impl <;>
        simp only [Bool.not_true, Bool.false_eq_true, if_false, if_true, SoftAESImpl.run,
          hashAndFillAes1Rx4_eq hsize, hashState_soft htwo, fillState_soft htwo, diffuse_soft htwo]

/-- A step of the pipeline gives the hash of the input that the scratchpad was filled for, and
fills it for the next. -/
theorem calculateHashNext_eq {p : Vm × Block} (impl : SoftAESImpl) (h : Filled s x p) (vm' : Vm) (next : Input) :
    (p.1.calculateHashNext s impl p.2 next).2.1 = (vm'.calculateHash s x).2 ∧
      Filled s next ((p.1.calculateHashNext s impl p.2 next).1,
        (p.1.calculateHashNext s impl p.2 next).2.2) := by
  obtain ⟨hscratchpad, hseed⟩ := h
  obtain ⟨hscratchpad', hseed'⟩ := filled_initScratchpad (s := s) vm' x
  have hsame : ∀ i < s.config.scratchpadSize / 64,
      p.1.scratchpad i = (vm'.initScratchpad s x.hash).1.scratchpad i :=
    fun i hi => (hscratchpad i hi).trans (hscratchpad' i hi).symm
  have htemp : p.2 = (vm'.initScratchpad s x.hash).2 := hseed.trans hseed'.symm
  obtain ⟨hagrees, hreg⟩ := programs_congr p.2 hsame
  have hsize : 64 ∣ s.config.scratchpadSize := .trans (by decide) (dvd_scratchpadSize _)
  unfold calculateHashNext Vm.hashAndFill
  dsimp only
  rw [hashAndFill_eq]
  constructor
  · unfold calculateHash getFinalResult
    dsimp only
    rw [← htemp, ← hreg, hashAes1Rx4_eq hsize, hashAes1Rx4_eq hsize, absorb_congr hagrees.scratchpad]
  · exact ⟨fun i hi => overwrite_apply hi, rfl⟩

/-- **The pipeline computes the plain hashes.**  Whatever states the machines are in, what
comes out is the hash of each input, one call after it went in; the last input is not seen. -/
theorem pipeline_eq (s : VmSetup) (vm vm' : Vm) (x : Input) (xs : List (Input × SoftAESImpl))
    (y : Input × SoftAESImpl) :
    pipeline s (vm.calculateHashFirst s x) (xs ++ [y]) =
      (x :: xs.map Prod.fst).map fun x => (vm'.calculateHash s x).2 := by
  have hfilled : ∀ (p : Vm × Block) (x : Input), Filled s x p →
      pipeline s p (xs ++ [y]) = (x :: xs.map Prod.fst).map fun x => (vm'.calculateHash s x).2 := by
    induction xs with
    | nil =>
        rintro ⟨vm, tempHash⟩ x h
        obtain ⟨hout, -⟩ := calculateHashNext_eq y.2 h vm' y.1
        simp only [List.nil_append, pipeline, List.map_nil, List.map_cons]
        rw [← hout]
    | cons next rest ih =>
        rintro ⟨vm, tempHash⟩ x h
        obtain ⟨hout, hnext⟩ := calculateHashNext_eq next.2 h vm' next.1
        simp only [List.cons_append, pipeline, List.map_cons]
        rw [← hout, ih _ _ hnext]
        rfl
  exact hfilled _ _ (filled_initScratchpad vm x)

end Vm

end

end XLArig
