import XLArig.CryptoNight
import XLArig.Traced.Beside

/-!
# XLArig.CryptoNight.Lanes

`crypto/cn/CryptoNight_x86.h`: `cryptonight_double_hash` as it is written out for two lanes, and
`cryptonight_triple_hash`, `cryptonight_quad_hash` and `cryptonight_penta_hash` in their macros
`CONST_INIT` and `CN_STEP1` to `CN_STEP4`, which keep `a` in one register of 128 bits and store
through the pointer that the step before has left.

The number of iterations is a parameter `n`, and `cn_explode_scratchpad` and
`cn_implode_scratchpad` are those of any `Passes`, programs of the context's state and of its
scratchpad.
-/

namespace XLArig

open Traced CnAlgo Algorithm

/-! ## Scratchpads -/

/-- The words of the scratchpad at `l`. -/
def pad (a : Algorithm) (l : Nat) : Set Nat := Set.Ico l (l + memory a)

/-- `cn_explode_scratchpad` and `cn_implode_scratchpad`: whatever they do, they look at the state
and at the scratchpad only, and write to the scratchpad only. -/
structure Passes (a : Algorithm) where
  explode : CnCtx → Prog Unit
  implode : CnCtx → Prog CnState
  explode_sim : ∀ c number, Sim (pad a c.memory) (explode c) (explode { c with number := number })
    fun _ _ => True
  implode_sim : ∀ c number, Sim (pad a c.memory) (implode c) (implode { c with number := number })
    Eq

section

variable [CnUnit] (a : Algorithm) (soft : Bool) (height : UInt64)

open CnUnit

/-! ## Two lanes, written out -/

/-- The first loads of both lanes. -/
def doubleLoad (c0 c1 : CnLane) : Prog (CnLane × CnLane) :=
  if a = CN_HEAVY_TUBE ∨ soft = false then do
    let cx0 ← load128 c0.number (c0.ptr a 0)
    let cx1 ← load128 c1.number (c1.ptr a 0)
    if a = CN_CCX then
      let (cx0, concVar0) := cryptonightConcealTweak cx0 c0.concVar
      let (cx1, concVar1) := cryptonightConcealTweak cx1 c1.concVar
      pure ({ c0 with cx := cx0, concVar := concVar0 }, { c1 with cx := cx1, concVar := concVar1 })
    else
      pure ({ c0 with cx := cx0 }, { c1 with cx := cx1 })
  else pure (c0, c1)

/-- The rounds of AES of both lanes; `soft_aesenc` takes the bytes from the scratchpads. -/
def doubleAes (c0 c1 : CnLane) : Prog (CnLane × CnLane) :=
  if a = CN_HEAVY_TUBE then
    pure ({ c0 with cx := aesRoundTweakDiv c0.cx c0.ax },
      { c1 with cx := aesRoundTweakDiv c1.cx c1.ax })
  else if soft then
    if a = CN_CCX then do
      let cx0 ← load128 c0.number (c0.ptr a 0)
      let cx1 ← load128 c1.number (c1.ptr a 0)
      let (cx0, concVar0) := cryptonightConcealTweak cx0 c0.concVar
      let (cx1, concVar1) := cryptonightConcealTweak cx1 c1.concVar
      pure ({ c0 with cx := CnUnit.aesenc soft cx0 c0.ax, concVar := concVar0 },
        { c1 with cx := CnUnit.aesenc soft cx1 c1.ax, concVar := concVar1 })
    else do
      let cx0 ← load128 c0.number (c0.ptr a 0)
      let cx1 ← load128 c1.number (c1.ptr a 0)
      pure ({ c0 with cx := CnUnit.aesenc soft cx0 c0.ax },
        { c1 with cx := CnUnit.aesenc soft cx1 c1.ax })
  else
    pure ({ c0 with cx := CnUnit.aesenc soft c0.cx c0.ax },
      { c1 with cx := CnUnit.aesenc soft c1.cx c1.ax })

/-- The first stores of both lanes. -/
def doubleTweak (c0 c1 : CnLane) : Prog (CnLane × CnLane) :=
  if base a = CN_1 ∨ base a = CN_2 then do
    let c0 ← c0.cryptonightMoneroTweak a 0
    let c1 ← c1.cryptonightMoneroTweak a 0
    pure (c0, c1)
  else do
    store128 c0.number (c0.ptr a 0) (c0.bx0.xor c0.cx)
    store128 c1.number (c1.ptr a 0) (c1.bx0.xor c1.cx)
    pure (c0, c1)

/-- The second half of a round, which stands there for the one lane and again for the other:
from `cl` to the division of the heavy algorithms. -/
def doubleLane (c : CnLane) : Prog CnLane := do
  let cl ← load64 c.number (c.ptr a 0)
  let ch ← load64 c.number (c.ptr a 0 + 8)
  let c ← CnLane.mathPhase a height { c with cl := cl, ch := ch }
  let c ← c.storeWords a 0
  let al := c.al ^^^ c.cl
  CnLane.heavyPhase a 0 { c with al := al, ah := c.ah ^^^ c.ch, idx := al }

/-- A round of `cryptonight_double_hash`; `ax0` and `ax1` are the `ax` of the lanes. -/
def doubleRound (lanes : CnLane × CnLane) : Prog (CnLane × CnLane) := do
  let (c0, c1) ← doubleLoad a soft lanes.1 lanes.2
  let (c0, c1) ← doubleAes a soft c0 c1
  let (c0, c1) ← doubleTweak a c0 c1
  let c0 := { c0 with idx := c0.cx.lo }
  let c1 := { c1 with idx := c1.cx.lo }
  let c0 ← doubleLane a height c0
  let c1 ← doubleLane a height c1
  let c0 := { c0 with bx1 := if base a = CN_2 then c0.bx0 else c0.bx1 }
  let c1 := { c1 with bx1 := if base a = CN_2 then c1.bx0 else c1.bx1 }
  pure ({ c0 with bx0 := c0.cx }, { c1 with bx0 := c1.cx })

/-! ## The macros for three lanes and more -/

/-- What the macros keep of a lane. -/
structure StepLane where
  number : Nat
  l : Nat
  ax : M128i
  bx0 : M128i
  bx1 : M128i
  cx : M128i
  ptr : Nat
  idx : UInt64
  mc : M128i
  concVar : M128i
  cl : UInt64
  ch : UInt64
  divisionResult : UInt64
  sqrtResult : UInt64
  r : Nat → UInt32

/-- `CONST_INIT`, and the start of `idx`; a register that it leaves as it is starts at 0. -/
def StepLane.constInit (input : List UInt8) (size : Nat) (c : CnCtx) : StepLane :=
  let h := c.state
  let ax : M128i := ⟨h 0 ^^^ h 4, h 1 ^^^ h 5⟩
  { number := c.number
    l := c.memory
    ax := ax
    bx0 := ⟨h 2 ^^^ h 6, h 3 ^^^ h 7⟩
    bx1 := ⟨h 8 ^^^ h 10, h 9 ^^^ h 11⟩
    cx := ⟨0, 0⟩
    ptr := 0
    idx := ax.lo
    mc := if base a = CN_1 then ⟨0, inputWord input (c.number * size + 35) ^^^ h 24⟩ else ⟨0, 0⟩
    concVar := ⟨0, 0⟩
    cl := 0
    ch := 0
    divisionResult := if base a = CN_2 then h 12 else 0
    sqrtResult := if base a = CN_2 then h 13 else 0
    r := fun i =>
      if isR a then
        match i with
        | 0 => (h 12).toUInt32
        | 1 => (h 12 >>> 32).toUInt32
        | 2 => (h 13).toUInt32
        | 3 => (h 13 >>> 32).toUInt32
        | _ => 0
      else 0 }

namespace StepLane

variable (s : StepLane)

/-- The registers as the `VARIANT` macros take them; the halves of `ax` are `al` and `ah`. -/
def regs : CnLane :=
  { number := s.number
    l := s.l
    al := s.ax.lo
    ah := s.ax.hi
    idx := s.idx
    bx0 := s.bx0
    bx1 := s.bx1
    cx := s.cx
    cl := s.cl
    ch := s.ch
    tweak1_2 := s.mc.hi
    divisionResult := s.divisionResult
    sqrtResult := s.sqrtResult
    r := s.r
    concVar := s.concVar }

def cnStep1 : Prog StepLane := do
  let s := { s with ptr := s.l + (s.idx &&& mask a).toNat }
  let cx ← load128 s.number s.ptr
  if a = CN_CCX then
    let (cx, concVar) := cryptonightConcealTweak cx s.concVar
    pure { s with cx := cx, concVar := concVar }
  else
    pure { s with cx := cx }

/-- `cryptonight_monero_tweak` with `mem_out = ptr`. -/
def moneroTweak : Prog StepLane := do
  if base a = CN_2 then
    let cx ← s.regs.variant2Shuffle a (a == CN_RWZ) s.cx
    store128 s.number s.ptr (s.bx0.xor cx)
    pure { s with cx := cx }
  else
    let tmp := s.bx0.xor s.cx
    store64 s.number s.ptr tmp.lo
    let x := (tmp.hi >>> 24).toUInt8
    let index := (((x >>> 3) &&& 6) ||| (x &&& 1)) <<< 1
    let vh := tmp.hi ^^^ ((((0x7531 : UInt64) >>> index.toUInt64) &&& 3) <<< 28)
    store64 s.number (s.ptr + 8) vh
    pure s

def cnStep2 : Prog StepLane := do
  let s := { s with
    cx := if a = CN_HEAVY_TUBE then aesRoundTweakDiv s.cx s.ax else CnUnit.aesenc soft s.cx s.ax }
  if base a = CN_1 ∨ base a = CN_2 then s.moneroTweak a
  else do
    store128 s.number s.ptr (s.bx0.xor s.cx)
    pure s

def cnStep3 : Prog StepLane := do
  let s := { s with idx := s.cx.lo }
  let s := { s with ptr := s.l + (s.idx &&& mask a).toNat }
  let cl ← load64 s.number s.ptr
  let ch ← load64 s.number (s.ptr + 8)
  pure { s with cl := cl, ch := ch }

/-- The arithmetic of `CN_STEP4`: `al` and `ah` replace `ax` for `CN_R` only, and after the
shuffle. -/
def cnMath : Prog StepLane := do
  let c :=
    if base a = CN_2 then
      if isR a then s.regs.variant4RandomMath a height else s.regs.variant2IntegerMath
    else s.regs
  let s := { s with
    cl := c.cl, divisionResult := c.divisionResult, sqrtResult := c.sqrtResult, r := c.r }
  let product := CnLane.umul128 s.idx s.cl
  let (cx, hi, lo) ←
    if base a = CN_2 then
      if a = CN_R then do
        let cx ← s.regs.variant2Shuffle a false s.cx
        pure (cx, product)
      else do
        let product ← s.regs.variant2Shuffle2 a (a == CN_RWZ) product.1 product.2
        pure (s.cx, product)
    else pure (s.cx, product)
  let ax := if a = CN_R then ⟨c.al, c.ah⟩ else s.ax
  pure { s with cx := cx, ax := ax.add ⟨hi, lo⟩ }

/-- The store of `CN_STEP4`. -/
def cnStore : Prog Unit :=
  if base a = CN_1 then do
    store128 s.number s.ptr (s.ax.xor s.mc)
    if a = CN_HEAVY_TUBE ∨ a = CN_RTO then
      let w1 ← load64 s.number (s.ptr + 8)
      let w0 ← load64 s.number s.ptr
      store64 s.number (s.ptr + 8) (w1 ^^^ w0)
    else pure ()
  else store128 s.number s.ptr s.ax

/-- The division of `CN_STEP4`. -/
def cnDivide : Prog StepLane :=
  if isHeavy a then do
    let p := s.l + (s.idx &&& mask a).toNat
    let n ← load64 s.number p
    let d ← load32 s.number (p + 8)
    let q := n.toInt64 / (d ||| 5).toInt32.toInt64
    store64 s.number p (n.toInt64 ^^^ q).toUInt64
    let d := if a = CN_HEAVY_XHV then ~~~d else d
    pure { s with idx := (d.toInt32.toInt64 ^^^ q).toUInt64 }
  else pure s

def cnStep4 : Prog StepLane := do
  let s ← s.cnMath a height
  s.cnStore a
  let ax := s.ax.xor ⟨s.cl, s.ch⟩
  let s ← cnDivide a { s with ax := ax, idx := ax.lo }
  let s := { s with bx1 := if base a = CN_2 then s.bx0 else s.bx1 }
  pure { s with bx0 := s.cx }

/-- The body of the loop: every macro for all lanes before the next one. -/
def cnRound : List StepLane → Prog (List StepLane) :=
  inTurn [each (cnStep1 a), each (cnStep2 a soft), each (cnStep3 a), each (cnStep4 a height)]

end StepLane

/-! ## The hash functions

What a function writes to its output is a list of offsets with the bytes there. -/

namespace Lanes

variable (passes : Passes a) (n : Nat) (input : List UInt8) (size : Nat)

/-- `keccak` and `cn_explode_scratchpad`. -/
def start {a : Algorithm} (passes : Passes a) (c : CnCtx) : Prog CnCtx := do
  let c := keccakLane input size c
  passes.explode c
  pure c

/-- `cn_implode_scratchpad`, `keccakf` and the last hash. -/
def finish {a : Algorithm} (passes : Passes a) (c : CnCtx) : Prog (List UInt8) := do
  let state ← passes.implode c
  pure (extraHash (keccakf state))

/-- A round of the single hash. -/
def singleRound : CnLane → Prog CnLane := inTurn (wordPhases a soft 0 height)

/-- `cryptonight_single_hash` without interleaving, with the bytes that it writes. -/
def cryptonightSingleHash (c : CnCtx) : Prog (List UInt8) :=
  if base a = CN_1 ∧ size < 43 then pure (List.replicate 32 0)
  else do
    let c ← start input size passes c
    let _ ← loop (fun _ => singleRound a soft height) n (CnLane.init a input size c)
    finish passes c

def cryptonightDoubleHash (c0 c1 : CnCtx) : Prog (List (Nat × List UInt8)) :=
  if base a = CN_1 ∧ size < 43 then
    pure [(0, List.replicate 32 0), (32, List.replicate 32 0)]
  else do
    let c0 := { c0 with state := keccak (input.take size) }
    let c1 := { c1 with state := keccak ((input.drop size).take size) }
    passes.explode c0
    passes.explode c1
    let _ ← loop (fun _ => doubleRound a soft height) n
      (CnLane.init a input size c0, CnLane.init a input size c1)
    let h0 ← passes.implode c0
    let h1 ← passes.implode c1
    pure [(0, extraHash (keccakf h0)), (32, extraHash (keccakf h1))]

/-- The common text of the functions for three lanes and more. -/
def stepHash (ctx : List CnCtx) : Prog (List (Nat × List UInt8)) :=
  if base a = CN_1 ∧ size < 43 then pure (ctx.map fun c => (32 * c.number, List.replicate 32 0))
  else do
    let ctx ← each (start input size passes) ctx
    let _ ← loop (fun _ => StepLane.cnRound a soft height) n
      (ctx.map (StepLane.constInit a input size))
    each (fun c => do
      let h ← finish passes c
      pure (32 * c.number, h)) ctx

def cryptonightTripleHash (c0 c1 c2 : CnCtx) : Prog (List (Nat × List UInt8)) :=
  stepHash a soft height passes n input size [c0, c1, c2]

def cryptonightQuadHash (c0 c1 c2 c3 : CnCtx) : Prog (List (Nat × List UInt8)) :=
  stepHash a soft height passes n input size [c0, c1, c2, c3]

def cryptonightPentaHash (c0 c1 c2 c3 c4 : CnCtx) : Prog (List (Nat × List UInt8)) :=
  stepHash a soft height passes n input size [c0, c1, c2, c3, c4]

/-- The function for as many lanes as there are contexts. -/
def multiHash : List CnCtx → Prog (List (Nat × List UInt8))
  | [c0, c1] => cryptonightDoubleHash a soft height passes n input size c0 c1
  | [c0, c1, c2] => cryptonightTripleHash a soft height passes n input size c0 c1 c2
  | [c0, c1, c2, c3] => cryptonightQuadHash a soft height passes n input size c0 c1 c2 c3
  | [c0, c1, c2, c3, c4] => cryptonightPentaHash a soft height passes n input size c0 c1 c2 c3 c4
  | _ => pure []

end Lanes

end

end XLArig
