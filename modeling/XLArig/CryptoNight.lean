import XLArig.CpuBackend
import XLArig.Traced

/-!
# XLArig.CryptoNight

`crypto/cn/CnAlgo`, `crypto/cn/CnCtx` and `crypto/cn/CryptoNight_x86.h`: the portable hash
functions of the CryptoNight family, as programs that note which bytes of the scratchpads they
read and write.

A pointer is the number of a byte.  Whatever the loops compute from the bytes they read (the
rounds of AES, the square root, the random program of `CN_R`) is in the class `CnUnit`; no
address depends on it other than through the masked index.  With `SOFT_AES`, the main loop of
`CN_R` may run as generated code, which reads and writes what the loop here does.
-/

namespace XLArig

open Traced

/-! ## Parameters of an algorithm

`CnAlgo` holds them as specialisations of its members. -/

namespace Algorithm

/-- `Algorithm::isCN`. -/
def isCN [Features] (a : Algorithm) : Bool :=
  a.family == .CN || a.family == .CN_LITE || a.family == .CN_HEAVY || a.family == .CN_PICO

end Algorithm

namespace CnAlgo

open Algorithm

def CN_MEMORY : Nat := 0x200000

def CN_ITER : Nat := 0x80000

def base : Algorithm → Algorithm
  | CN_0 | CN_XAO | CN_LITE_0 | CN_HEAVY_0 | CN_HEAVY_XHV | CN_CCX => CN_0
  | CN_1 | CN_FAST | CN_RTO | CN_LITE_1 | CN_HEAVY_TUBE => CN_1
  | _ => CN_2

def iterations : Algorithm → Nat
  | CN_FAST | CN_HALF | CN_LITE_0 | CN_LITE_1 | CN_HEAVY_0 | CN_HEAVY_TUBE | CN_HEAVY_XHV
  | CN_CCX => CN_ITER / 2
  | CN_XAO | CN_DOUBLE => CN_ITER * 2
  | CN_RWZ | CN_ZLS => 0x60000
  | CN_PICO_0 | CN_PICO_TLO => CN_ITER / 8
  | _ => CN_ITER

def memory : Algorithm → Nat
  | CN_LITE_0 | CN_LITE_1 => CN_MEMORY / 2
  | CN_HEAVY_0 | CN_HEAVY_TUBE | CN_HEAVY_XHV => CN_MEMORY * 2
  | CN_PICO_0 | CN_PICO_TLO => CN_MEMORY / 8
  | _ => CN_MEMORY

def mask : Algorithm → UInt64
  | CN_PICO_0 => 0x1FFF0
  | a => UInt64.ofNat ((memory a - 1) / 16 * 16)

def isHeavy (a : Algorithm) : Bool := memory a == CN_MEMORY * 2

def isR (a : Algorithm) : Bool := a == CN_R

end CnAlgo

/-! ## Registers and scratchpads -/

/-- `__m128i`, as its two halves. -/
@[ext]
structure M128i where
  lo : UInt64
  hi : UInt64
  deriving DecidableEq

namespace M128i

def xor (a b : M128i) : M128i := ⟨a.lo ^^^ b.lo, a.hi ^^^ b.hi⟩

/-- `_mm_add_epi64`. -/
def add (a b : M128i) : M128i := ⟨a.lo + b.lo, a.hi + b.hi⟩

end M128i

/-- `cryptonight_ctx::state`, as words of 64 bits. -/
abbrev CnState := Nat → UInt64

/-- Vector `i` of the state. -/
def CnState.vec (h : CnState) (i : Nat) : M128i := ⟨h (2 * i), h (2 * i + 1)⟩

/-- `cryptonight_ctx`; `number` is its place in the array. -/
structure CnCtx where
  number : Nat
  state : CnState
  memory : Nat

/-- The bytes from `pos` on that lane `number` read or wrote. -/
structure Span where
  number : Nat
  pos : Nat
  size : Nat
  deriving DecidableEq

/-- The words of memory, each by the number of its first byte. -/
abbrev Words := Nat → UInt64

abbrev Prog := Traced Words Span

section

variable (number p : Nat)

/-- `_mm_load_si128`. -/
def load128 : Prog M128i := read ⟨number, p, 16⟩ fun m => ⟨m p, m (p + 8)⟩

/-- `_mm_store_si128`. -/
def store128 (v : M128i) : Prog Unit :=
  write ⟨number, p, 16⟩ fun m i => if i = p then v.lo else if i = p + 8 then v.hi else m i

def load64 : Prog UInt64 := read ⟨number, p, 8⟩ fun m => m p

/-- The lower half of the word at `p`. -/
def load32 : Prog UInt32 := read ⟨number, p, 4⟩ fun m => (m p).toUInt32

def store64 (v : UInt64) : Prog Unit :=
  write ⟨number, p, 8⟩ fun m i => if i = p then v else m i

end

/-- What the hash functions compute without looking at a scratchpad. -/
class CnUnit where
  keccak : List UInt8 → CnState
  keccakf : CnState → CnState
  extraHash : CnState → List UInt8
  aesGenkey : Bool → M128i → M128i → List M128i
  aesenc : Bool → M128i → M128i → M128i
  aesRoundTweakDiv : M128i → M128i → M128i
  cryptonightConcealTweak : M128i → M128i → M128i × M128i
  intSqrtV2 : UInt64 → UInt64
  v4RandomMath : Algorithm → UInt64 → (Nat → UInt32) → Nat → UInt32

section

variable [CnUnit] (a : Algorithm) (soft : Bool) (interleave : Nat)

open CnUnit CnAlgo Algorithm

/-! ## Filling and reading back -/

def interleavedIndex (k : UInt64) : UInt64 :=
  match interleave with
  | 0 => k
  | n => ((k &&& ~~~63) <<< UInt64.ofNat n) ||| (k &&& 63)

/-- The eight registers that are encrypted side by side. -/
structure Octet where
  x0 : M128i
  x1 : M128i
  x2 : M128i
  x3 : M128i
  x4 : M128i
  x5 : M128i
  x6 : M128i
  x7 : M128i

/-- The vectors `i, …, i + 7` of the state. -/
def CnState.octet (h : CnState) (i : Nat) : Octet :=
  ⟨CnState.vec h i, CnState.vec h (i + 1), CnState.vec h (i + 2), CnState.vec h (i + 3),
    CnState.vec h (i + 4), CnState.vec h (i + 5), CnState.vec h (i + 6), CnState.vec h (i + 7)⟩

/-- The state with the registers stored from vector `i` on. -/
def CnState.storeOctet (h : CnState) (i : Nat) (x : Octet) : CnState := fun j =>
  let halves := [x.x0.lo, x.x0.hi, x.x1.lo, x.x1.hi, x.x2.lo, x.x2.hi, x.x3.lo, x.x3.hi,
    x.x4.lo, x.x4.hi, x.x5.lo, x.x5.hi, x.x6.lo, x.x6.hi, x.x7.lo, x.x7.hi]
  if j < 2 * i then h j else halves.getD (j - 2 * i) (h j)

namespace Octet

/-- `aes_round`. -/
def aesRound (x : Octet) (key : M128i) : Octet :=
  ⟨CnUnit.aesenc soft x.x0 key, CnUnit.aesenc soft x.x1 key, CnUnit.aesenc soft x.x2 key,
    CnUnit.aesenc soft x.x3 key, CnUnit.aesenc soft x.x4 key, CnUnit.aesenc soft x.x5 key,
    CnUnit.aesenc soft x.x6 key, CnUnit.aesenc soft x.x7 key⟩

/-- The rounds with all keys. -/
def aesRounds (keys : List M128i) (x : Octet) : Octet := keys.foldl (aesRound soft) x

def mixAndPropagate (x : Octet) : Octet :=
  ⟨x.x0.xor x.x1, x.x1.xor x.x2, x.x2.xor x.x3, x.x3.xor x.x4, x.x4.xor x.x5, x.x5.xor x.x6,
    x.x6.xor x.x7, x.x7.xor x.x0⟩

/-- The sixteen mixing rounds of the heavy algorithms. -/
def mixed (keys : List M128i) (x : Octet) : Octet :=
  if isHeavy a then (fun x => (x.aesRounds soft keys).mixAndPropagate)^[16] x else x

end Octet

/-- How far `output += (64 << interleave) / sizeof(__m128i)` goes, in bytes. -/
def stride : Nat := 64 <<< interleave / 16 * 16

/-- The rounds of a loop over the scratchpad that goes on by eight vectors. -/
def rounds : Nat := (memory a / 16 + 7) / 8

/-- The four stores of one half of a round. -/
def storeHalf (number p : Nat) (v0 v1 v2 v3 : M128i) : Prog Unit := do
  store128 number p v0
  store128 number (p + 16) v1
  store128 number (p + 32) v2
  store128 number (p + 48) v3

/-- The four loads of one half of a round. -/
def loadHalf (number p : Nat) : Prog (M128i × M128i × M128i × M128i) := do
  let v0 ← load128 number p
  let v1 ← load128 number (p + 16)
  let v2 ← load128 number (p + 32)
  let v3 ← load128 number (p + 48)
  pure (v0, v1, v2, v3)

def cnExplodeScratchpad (c : CnCtx) : Prog Unit := do
  let keys := aesGenkey soft (CnState.vec c.state 0) (CnState.vec c.state 1)
  let xin := (CnState.octet c.state 4).mixed a soft keys
  let _ ← loop (fun _ (output, xin) => do
    let xin := Octet.aesRounds soft keys xin
    storeHalf c.number output xin.x0 xin.x1 xin.x2 xin.x3
    let output := output + stride interleave
    storeHalf c.number output xin.x4 xin.x5 xin.x6 xin.x7
    let output := output + stride interleave
    pure (output, xin)) (rounds a) (c.memory, xin)
  pure ()

/-- One pass of `cn_implode_scratchpad` over the scratchpad. -/
def implodePass (c : CnCtx) (keys : List M128i) (xout : Octet) : Prog Octet := do
  let (_, xout) ← loop (fun _ ((input, xout) : Nat × Octet) => do
    let (v0, v1, v2, v3) ← loadHalf c.number input
    let input := input + stride interleave
    let (v4, v5, v6, v7) ← loadHalf c.number input
    let input := input + stride interleave
    let xout : Octet := ⟨v0.xor xout.x0, v1.xor xout.x1, v2.xor xout.x2, v3.xor xout.x3,
      v4.xor xout.x4, v5.xor xout.x5, v6.xor xout.x6, v7.xor xout.x7⟩
    let xout := xout.aesRounds soft keys
    pure (input, if isHeavy a then xout.mixAndPropagate else xout)) (rounds a) (c.memory, xout)
  pure xout

/-- The passes: a heavy algorithm makes two. -/
def implodePasses (c : CnCtx) (keys : List M128i) (xout : Octet) : Prog Octet := do
  let xout ← implodePass a soft interleave c keys xout
  if isHeavy a then implodePass a soft interleave c keys xout else pure xout

def cnImplodeScratchpad (c : CnCtx) : Prog CnState := do
  let keys := aesGenkey soft (CnState.vec c.state 2) (CnState.vec c.state 3)
  let xout ← implodePasses a soft interleave c keys (CnState.octet c.state 4)
  pure (CnState.storeOctet c.state 4 (xout.mixed a soft keys))

/-! ## The main loop -/

/-- What the main loop keeps of a lane; `l` points to its scratchpad, and `al` and `ah` are the
halves of `ax`. -/
structure CnLane where
  number : Nat
  l : Nat
  al : UInt64
  ah : UInt64
  idx : UInt64
  bx0 : M128i
  bx1 : M128i
  cx : M128i
  cl : UInt64
  ch : UInt64
  tweak1_2 : UInt64
  divisionResult : UInt64
  sqrtResult : UInt64
  r : Nat → UInt32
  concVar : M128i

/-- The 64-bit word at byte `i` of the input. -/
def inputWord (input : List UInt8) (i : Nat) : UInt64 :=
  ((input.drop i).take 8).foldr (fun b w => (w <<< 8) ||| b.toUInt64) 0

/-- The initialisations of a lane, `CONST_INIT` and the `VARIANT` macros. -/
def CnLane.init (input : List UInt8) (size : Nat) (c : CnCtx) : CnLane :=
  let h := c.state
  { number := c.number
    l := c.memory
    al := h 0 ^^^ h 4
    ah := h 1 ^^^ h 5
    idx := h 0 ^^^ h 4
    bx0 := ⟨h 2 ^^^ h 6, h 3 ^^^ h 7⟩
    bx1 := ⟨h 8 ^^^ h 10, h 9 ^^^ h 11⟩
    cx := ⟨0, 0⟩
    cl := 0
    ch := 0
    tweak1_2 := if base a = CN_1 then inputWord input (35 + c.number * size) ^^^ h 24 else 0
    divisionResult := h 12
    sqrtResult := h 13
    r := fun i =>
      match i with
      | 0 => (h 12).toUInt32
      | 1 => (h 12 >>> 32).toUInt32
      | 2 => (h 13).toUInt32
      | 3 => (h 13 >>> 32).toUInt32
      | _ => 0
    concVar := ⟨0, 0⟩ }

namespace CnLane

variable (height : UInt64) (c : CnLane)

/-- `&l[interleaved_index(idx & MASK)]`. -/
def ptr : Nat := c.l + (interleavedIndex interleave (c.idx &&& mask a)).toNat

/-- `base_ptr + (offset ^ k)` of the `VARIANT2` macros, whose offset is `idx & MASK`. -/
def chunk (k : UInt64) : Nat := c.l + ((c.idx &&& mask a) ^^^ k).toNat

def ax : M128i := ⟨c.al, c.ah⟩

/-- `VARIANT2_SHUFFLE`. -/
def variant2Shuffle (reverse : Bool) (cx : M128i) : Prog M128i := do
  let chunk1 ← load128 c.number (c.chunk a (if reverse then 0x30 else 0x10))
  let chunk2 ← load128 c.number (c.chunk a 0x20)
  let chunk3 ← load128 c.number (c.chunk a (if reverse then 0x10 else 0x30))
  store128 c.number (c.chunk a 0x10) (chunk3.add c.bx1)
  store128 c.number (c.chunk a 0x20) (chunk1.add c.bx0)
  store128 c.number (c.chunk a 0x30) (chunk2.add c.ax)
  pure (if a = CN_R then (cx.xor chunk3).xor (chunk1.xor chunk2) else cx)

/-- `VARIANT2_SHUFFLE2`, with `hi` and `lo` as it leaves them. -/
def variant2Shuffle2 (reverse : Bool) (hi lo : UInt64) : Prog (UInt64 × UInt64) := do
  let chunk1 ← load128 c.number (c.chunk a 0x10)
  let chunk1 := chunk1.xor ⟨hi, lo⟩
  let chunk2 ← load128 c.number (c.chunk a 0x20)
  let hi' ← load64 c.number (c.chunk a 0x20)
  let lo' ← load64 c.number (c.chunk a 0x20 + 8)
  let chunk3 ← load128 c.number (c.chunk a 0x30)
  store128 c.number (c.chunk a 0x10) ((if reverse then chunk1 else chunk3).add c.bx1)
  store128 c.number (c.chunk a 0x20) ((if reverse then chunk3 else chunk1).add c.bx0)
  store128 c.number (c.chunk a 0x30) (chunk2.add c.ax)
  pure (hi ^^^ hi', lo ^^^ lo')

def cryptonightMoneroTweak : Prog CnLane := do
  if base a = CN_2 then
    let cx ← c.variant2Shuffle a (a == CN_RWZ) c.cx
    store128 c.number (c.ptr a interleave) (c.bx0.xor cx)
    pure { c with cx := cx }
  else
    let tmp := c.bx0.xor c.cx
    store64 c.number (c.ptr a interleave) tmp.lo
    let x := (tmp.hi >>> 24).toUInt8
    let index := (((x >>> 3) &&& 6) ||| (x &&& 1)) <<< 1
    let vh := tmp.hi ^^^ ((((0x7531 : UInt64) >>> index.toUInt64) &&& 3) <<< 28)
    store64 c.number (c.ptr a interleave + 8) vh
    pure c

/-- Load `cx`, with the tweak of `CN_CCX`. -/
def loadCx : Prog CnLane := do
  let cx ← load128 c.number (c.ptr a interleave)
  if a = CN_CCX then
    let (cx, concVar) := cryptonightConcealTweak cx c.concVar
    pure { c with cx := cx, concVar := concVar }
  else
    pure { c with cx := cx }

/-- With `SOFT_AES` the round itself reads the scratchpad, except for `CN_HEAVY_TUBE`. -/
def loadPhase : Prog CnLane :=
  if a = CN_HEAVY_TUBE ∨ soft = false then c.loadCx a interleave else pure c

def aesPhase : Prog CnLane :=
  if a = CN_HEAVY_TUBE then pure { c with cx := aesRoundTweakDiv c.cx c.ax }
  else if soft then do
    let c ← c.loadCx a interleave
    pure { c with cx := CnUnit.aesenc soft c.cx c.ax }
  else pure { c with cx := CnUnit.aesenc soft c.cx c.ax }

def tweakPhase : Prog CnLane :=
  if base a = CN_1 ∨ base a = CN_2 then c.cryptonightMoneroTweak a interleave
  else do
    store128 c.number (c.ptr a interleave) (c.bx0.xor c.cx)
    pure c

/-- Follow `cx` and read `cl` and `ch`. -/
def followPhase : Prog CnLane := do
  let c := { c with idx := c.cx.lo }
  let cl ← load64 c.number (c.ptr a interleave)
  let ch ← load64 c.number (c.ptr a interleave + 8)
  pure { c with cl := cl, ch := ch }

/-- `VARIANT2_INTEGER_MATH`. -/
def variant2IntegerMath : CnLane :=
  let cx0 := c.cx.lo
  let d := (cx0 + (c.sqrtResult <<< 1)).toUInt32 ||| 0x80000001
  let divisionResult := (c.cx.hi / d.toUInt64).toUInt32.toUInt64 + ((c.cx.hi % d.toUInt64) <<< 32)
  { c with
    cl := c.cl ^^^ c.divisionResult ^^^ (c.sqrtResult <<< 32)
    divisionResult := divisionResult
    sqrtResult := intSqrtV2 (cx0 + divisionResult) }

/-- `VARIANT4_RANDOM_MATH`, and what `CN_R` adds. -/
def variant4RandomMath : CnLane :=
  let cl := c.cl ^^^ ((c.r 0 + c.r 1).toUInt64 ||| ((c.r 2 + c.r 3).toUInt64 <<< 32))
  let r := v4RandomMath a height fun i =>
    match i with
    | 4 => c.al.toUInt32
    | 5 => c.ah.toUInt32
    | 6 => c.bx0.lo.toUInt32
    | 7 => c.bx1.lo.toUInt32
    | 8 => c.bx1.hi.toUInt32
    | i => c.r i
  { c with
    cl := cl
    r := r
    al := c.al ^^^ ((r 2).toUInt64 ||| ((r 3).toUInt64 <<< 32))
    ah := c.ah ^^^ ((r 0).toUInt64 ||| ((r 1).toUInt64 <<< 32)) }

/-- `__umul128`, the higher half first. -/
def umul128 (x y : UInt64) : UInt64 × UInt64 :=
  (UInt64.ofNat (x.toNat * y.toNat / 2 ^ 64), x * y)

/-- The arithmetic on `cl`, and the product; the macros shuffle with `ax` as it was before. -/
def mathPhase : Prog CnLane :=
  let before := c
  let c :=
    if base a = CN_2 then
      if isR a then c.variant4RandomMath a height else c.variant2IntegerMath
    else c
  let product := umul128 c.idx c.cl
  if base a = CN_2 then
    if a = CN_R then do
      let cx ← before.variant2Shuffle a false c.cx
      pure { c with cx := cx, al := c.al + product.1, ah := c.ah + product.2 }
    else do
      let product ← before.variant2Shuffle2 a (a == CN_RWZ) product.1 product.2
      pure { c with al := c.al + product.1, ah := c.ah + product.2 }
  else pure { c with al := c.al + product.1, ah := c.ah + product.2 }

/-- The stores of the single and the double hash. -/
def storeWords : Prog CnLane := do
  store64 c.number (c.ptr a interleave) c.al
  let w :=
    if a = CN_HEAVY_TUBE ∨ a = CN_RTO then c.ah ^^^ c.tweak1_2 ^^^ c.al
    else if base a = CN_1 then c.ah ^^^ c.tweak1_2
    else c.ah
  store64 c.number (c.ptr a interleave + 8) w
  pure c

/-- The store of `CN_STEP4`. -/
def storeVector : Prog CnLane :=
  if base a = CN_1 then do
    store128 c.number (c.ptr a interleave) (c.ax.xor ⟨0, c.tweak1_2⟩)
    if a = CN_HEAVY_TUBE ∨ a = CN_RTO then
      let w1 ← load64 c.number (c.ptr a interleave + 8)
      let w0 ← load64 c.number (c.ptr a interleave)
      store64 c.number (c.ptr a interleave + 8) (w1 ^^^ w0)
      pure c
    else pure c
  else do
    store128 c.number (c.ptr a interleave) c.ax
    pure c

/-- The division of the heavy algorithms. -/
def heavyPhase : Prog CnLane :=
  if isHeavy a then do
    let n ← load64 c.number (c.ptr a interleave)
    let d ← load32 c.number (c.ptr a interleave + 8)
    let q := n.toInt64 / (d ||| 5).toInt32.toInt64
    store64 c.number (c.ptr a interleave) (n.toInt64 ^^^ q).toUInt64
    let d := if a = CN_HEAVY_XHV then ~~~d else d
    pure { c with idx := (d.toInt32.toInt64 ^^^ q).toUInt64 }
  else pure c

/-- The end of a round, after the store. -/
def turnPhase : Prog CnLane := do
  let al := c.al ^^^ c.cl
  let c ← heavyPhase a interleave { c with al := al, ah := c.ah ^^^ c.ch, idx := al }
  pure { c with bx1 := if base a = CN_2 then c.bx0 else c.bx1, bx0 := c.cx }

end CnLane

/-- The lanes take turns: all of them at the first phase, then all of them at the next. -/
def mainLoop (phases : List (CnLane → Prog CnLane)) (lanes : List CnLane) : Prog (List CnLane) :=
  loop (fun _ lanes => inTurn (phases.map each) lanes) (iterations a) lanes

/-! ## The hash functions -/

section Hash

variable (input : List UInt8) (size : Nat) (height : UInt64) (ctx : List CnCtx)

/-- `keccak` of the lane's part of the input. -/
def keccakLane (c : CnCtx) : CnCtx :=
  { c with state := keccak ((input.drop (size * c.number)).take size) }

/-- `cn_implode_scratchpad`, `keccakf` and the last hash. -/
def finishLane (c : CnCtx) : Prog (List UInt8) := do
  let state ← cnImplodeScratchpad a soft interleave c
  pure (extraHash (keccakf state))

/-- The phases of the single and the double hash. -/
def wordPhases : List (CnLane → Prog CnLane) :=
  [fun c => c.loadPhase a soft interleave,
    fun c => c.aesPhase a soft interleave,
    fun c => c.tweakPhase a interleave,
    fun c => do
      let c ← c.followPhase a interleave
      let c ← c.mathPhase a height
      let c ← c.storeWords a interleave
      c.turnPhase a interleave]

/-- `CN_STEP1` to `CN_STEP4`. -/
def stepPhases : List (CnLane → Prog CnLane) :=
  [fun c => c.loadCx a 0,
    fun c =>
      CnLane.tweakPhase a 0 { c with
        cx := if a = CN_HEAVY_TUBE then aesRoundTweakDiv c.cx c.ax
          else CnUnit.aesenc soft c.cx c.ax },
    fun c => c.followPhase a 0,
    fun c => do
      let c ← c.mathPhase a height
      let c ← c.storeVector a 0
      c.turnPhase a 0]

/-- The hash functions: nothing happens to the scratchpads if the blob is too short for the
tweak of `CN_1`. -/
def cryptonightHash (phases : List (CnLane → Prog CnLane)) : Prog (List (List UInt8)) :=
  if base a = CN_1 ∧ size < 43 then pure (ctx.map fun _ => List.replicate 32 0)
  else do
    let ctx := ctx.map (keccakLane input size)
    let _ ← each (cnExplodeScratchpad a soft interleave) ctx
    let _ ← mainLoop a phases (ctx.map (CnLane.init a input size))
    each (finishLane a soft interleave) ctx

def cryptonightSingleHash : Prog (List (List UInt8)) :=
  cryptonightHash a soft interleave input size ctx (wordPhases a soft interleave height)

def cryptonightDoubleHash : Prog (List (List UInt8)) :=
  cryptonightHash a soft 0 input size ctx (wordPhases a soft 0 height)

/-- `cryptonight_triple_hash`, `cryptonight_quad_hash` and `cryptonight_penta_hash` differ in
the number of their lanes only. -/
def cryptonightStepHash : Prog (List (List UInt8)) :=
  cryptonightHash a soft 0 input size ctx (stepPhases a soft height)

end Hash

end

/-! ## The worker's block -/

/-- `CnCtx::create`: lane `i` gets the memory from `i * size` on. -/
def CnCtx.create (memory size count : Nat) : List CnCtx :=
  (List.range count).map fun i => ⟨i, fun _ => 0, memory + i * size⟩

end XLArig
