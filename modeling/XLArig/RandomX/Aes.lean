import XLArig.Sweep

/-!
# XLArig.RandomX.Aes

`crypto/randomx/soft_aes` and `crypto/randomx/aes_hash`: one round of AES in each of its
versions, and the hash and the generator that are made of it.

A vector of 128 bits is four words, a block of 64 bytes four vectors.  The scratchpad is an
array of blocks; `p` is a pointer into it, in bytes.
-/

namespace XLArig

/-- `rx_vec_i128`; `x` is the lowest word. -/
@[ext]
structure Vec where
  x : UInt32
  y : UInt32
  z : UInt32
  w : UInt32
  deriving DecidableEq

namespace Vec

/-- `rx_set_int_vec_i128`. -/
def set (w z y x : UInt32) : Vec := ⟨x, y, z, w⟩

/-- `rx_xor_vec_i128`. -/
def xor (a b : Vec) : Vec := ⟨a.x ^^^ b.x, a.y ^^^ b.y, a.z ^^^ b.z, a.w ^^^ b.w⟩

/-- Byte `i` in memory. -/
def byte (v : Vec) (i : Nat) : UInt8 :=
  let word : UInt32 :=
    match i / 4 with
    | 0 => v.x
    | 1 => v.y
    | 2 => v.z
    | _ => v.w
  match i % 4 with
  | 0 => word.toUInt8
  | 1 => (word >>> 8).toUInt8
  | 2 => (word >>> 16).toUInt8
  | _ => (word >>> 24).toUInt8

end Vec

private theorem toUInt8_and (x : UInt32) : (x &&& 0xff).toUInt8 = x.toUInt8 := by
  apply UInt8.toNat_inj.mp
  simp only [UInt32.toNat_toUInt8, UInt32.toNat_and]
  show (x.toNat &&& (2 ^ 8 - 1)) % 2 ^ 8 = x.toNat % 2 ^ 8
  rw [Nat.and_two_pow_sub_one_eq_mod, Nat.mod_mod]

/-- The round of the processor, and the tables that stand for it. -/
class AesUnit where
  aesenc : Vec → Vec → Vec
  aesdec : Vec → Vec → Vec
  lutEnc0 : UInt8 → UInt32
  lutEnc1 : UInt8 → UInt32
  lutEnc2 : UInt8 → UInt32
  lutEnc3 : UInt8 → UInt32
  lutDec0 : UInt8 → UInt32
  lutDec1 : UInt8 → UInt32
  lutDec2 : UInt8 → UInt32
  lutDec3 : UInt8 → UInt32

section

variable [AesUnit]

open AesUnit

/-! ## The round -/

/-- `aesenc<1>`: the tables are read at the bytes in memory. -/
def aesenc1 (v key : Vec) : Vec :=
  let s := v.byte
  let s0 := lutEnc0 (s 0) ^^^ lutEnc1 (s 5) ^^^ lutEnc2 (s 10) ^^^ lutEnc3 (s 15)
  let s1 := lutEnc0 (s 4) ^^^ lutEnc1 (s 9) ^^^ lutEnc2 (s 14) ^^^ lutEnc3 (s 3)
  let s2 := lutEnc0 (s 8) ^^^ lutEnc1 (s 13) ^^^ lutEnc2 (s 2) ^^^ lutEnc3 (s 7)
  let s3 := lutEnc0 (s 12) ^^^ lutEnc1 (s 1) ^^^ lutEnc2 (s 6) ^^^ lutEnc3 (s 11)
  (Vec.set s3 s2 s1 s0).xor key

/-- `aesdec<1>`. -/
def aesdec1 (v key : Vec) : Vec :=
  let s := v.byte
  let s0 := lutDec0 (s 0) ^^^ lutDec1 (s 13) ^^^ lutDec2 (s 10) ^^^ lutDec3 (s 7)
  let s1 := lutDec0 (s 4) ^^^ lutDec1 (s 1) ^^^ lutDec2 (s 14) ^^^ lutDec3 (s 11)
  let s2 := lutDec0 (s 8) ^^^ lutDec1 (s 5) ^^^ lutDec2 (s 2) ^^^ lutDec3 (s 15)
  let s3 := lutDec0 (s 12) ^^^ lutDec1 (s 9) ^^^ lutDec2 (s 6) ^^^ lutDec3 (s 3)
  (Vec.set s3 s2 s1 s0).xor key

/-- `aesenc<2>`: the bytes are taken out of the words. -/
def aesenc2 (v key : Vec) : Vec :=
  let s0 := v.w
  let s1 := v.z
  let s2 := v.y
  let s3 := v.x
  (Vec.set
    (lutEnc0 (s0 &&& 0xff).toUInt8 ^^^ lutEnc1 (s3 >>> 8 &&& 0xff).toUInt8 ^^^
      lutEnc2 (s2 >>> 16 &&& 0xff).toUInt8 ^^^ lutEnc3 (s1 >>> 24).toUInt8)
    (lutEnc0 (s1 &&& 0xff).toUInt8 ^^^ lutEnc1 (s0 >>> 8 &&& 0xff).toUInt8 ^^^
      lutEnc2 (s3 >>> 16 &&& 0xff).toUInt8 ^^^ lutEnc3 (s2 >>> 24).toUInt8)
    (lutEnc0 (s2 &&& 0xff).toUInt8 ^^^ lutEnc1 (s1 >>> 8 &&& 0xff).toUInt8 ^^^
      lutEnc2 (s0 >>> 16 &&& 0xff).toUInt8 ^^^ lutEnc3 (s3 >>> 24).toUInt8)
    (lutEnc0 (s3 &&& 0xff).toUInt8 ^^^ lutEnc1 (s2 >>> 8 &&& 0xff).toUInt8 ^^^
      lutEnc2 (s1 >>> 16 &&& 0xff).toUInt8 ^^^ lutEnc3 (s0 >>> 24).toUInt8)).xor key

/-- `aesdec<2>`. -/
def aesdec2 (v key : Vec) : Vec :=
  let s0 := v.w
  let s1 := v.z
  let s2 := v.y
  let s3 := v.x
  (Vec.set
    (lutDec0 (s0 &&& 0xff).toUInt8 ^^^ lutDec1 (s1 >>> 8 &&& 0xff).toUInt8 ^^^
      lutDec2 (s2 >>> 16 &&& 0xff).toUInt8 ^^^ lutDec3 (s3 >>> 24).toUInt8)
    (lutDec0 (s1 &&& 0xff).toUInt8 ^^^ lutDec1 (s2 >>> 8 &&& 0xff).toUInt8 ^^^
      lutDec2 (s3 >>> 16 &&& 0xff).toUInt8 ^^^ lutDec3 (s0 >>> 24).toUInt8)
    (lutDec0 (s2 &&& 0xff).toUInt8 ^^^ lutDec1 (s3 >>> 8 &&& 0xff).toUInt8 ^^^
      lutDec2 (s0 >>> 16 &&& 0xff).toUInt8 ^^^ lutDec3 (s1 >>> 24).toUInt8)
    (lutDec0 (s3 &&& 0xff).toUInt8 ^^^ lutDec1 (s0 >>> 8 &&& 0xff).toUInt8 ^^^
      lutDec2 (s1 >>> 16 &&& 0xff).toUInt8 ^^^ lutDec3 (s2 >>> 24).toUInt8)).xor key

/-- `aesenc<softAes>`; 0 is the processor. -/
def aesenc : (softAes : Nat) → Vec → Vec → Vec
  | 0 => AesUnit.aesenc
  | 1 => aesenc1
  | _ => aesenc2

/-- `aesdec<softAes>`. -/
def aesdec : (softAes : Nat) → Vec → Vec → Vec
  | 0 => AesUnit.aesdec
  | 1 => aesdec1
  | _ => aesdec2

/-- The two versions in software read the same bytes. -/
theorem aesenc1_eq (v key : Vec) : aesenc1 v key = aesenc2 v key := by
  simp only [aesenc1, aesenc2, toUInt8_and]
  rfl

theorem aesdec1_eq (v key : Vec) : aesdec1 v key = aesdec2 v key := by
  simp only [aesdec1, aesdec2, toUInt8_and]
  rfl

theorem aesenc_soft {softAes : Nat} (h : softAes ≠ 0) : aesenc softAes = aesenc 1 := by
  match softAes with
  | 0 => exact absurd rfl h
  | 1 => rfl
  | _ + 2 =>
      funext v key
      exact (aesenc1_eq v key).symm

theorem aesdec_soft {softAes : Nat} (h : softAes ≠ 0) : aesdec softAes = aesdec 1 := by
  match softAes with
  | 0 => exact absurd rfl h
  | 1 => rfl
  | _ + 2 =>
      funext v key
      exact (aesdec1_eq v key).symm

/-! ## Four lanes -/

/-- 64 bytes. -/
structure Block where
  v0 : Vec
  v1 : Vec
  v2 : Vec
  v3 : Vec
  deriving DecidableEq

/-- `AES_HASH_1R_STATE0` to `AES_HASH_1R_STATE3`. -/
def AES_HASH_1R_STATE : Block where
  v0 := .set 0xd7983aad 0xcc82db47 0x9fa856de 0x92b52c0d
  v1 := .set 0xace78057 0xf59e125a 0x15c7b798 0x338d996e
  v2 := .set 0xe8a07ce4 0x5079506b 0xae62c7d0 0x6a770017
  v3 := .set 0x7e994948 0x79a10005 0x07ad828d 0x630a240c

def AES_HASH_1R_XKEY0 : Vec := .set 0x06890201 0x90dc56bf 0x8b24949f 0xf6fa8389
def AES_HASH_1R_XKEY1 : Vec := .set 0xed18f99b 0xee1043c6 0x51f4e03c 0x61b263d1

/-- `AES_GEN_1R_KEY0` to `AES_GEN_1R_KEY3`. -/
def AES_GEN_1R_KEY : Block where
  v0 := .set 0xb4f44917 0xdbb5552b 0x62716609 0x6daca553
  v1 := .set 0x0da1dc4e 0x1725d378 0x846a710d 0x6d7caf07
  v2 := .set 0x3e20e345 0xf4c0794f 0x9f947ec6 0x3f1262f1
  v3 := .set 0x49169154 0x16314c88 0xb1ba317c 0x6aef8135

/-- A block goes into the state of the hash. -/
def hashState (softAes : Nat) (state block : Block) : Block where
  v0 := aesenc softAes state.v0 block.v0
  v1 := aesdec softAes state.v1 block.v1
  v2 := aesenc softAes state.v2 block.v2
  v3 := aesdec softAes state.v3 block.v3

/-- The state of the generator, which is the next block. -/
def fillState (softAes : Nat) (state : Block) : Block where
  v0 := aesdec softAes state.v0 AES_GEN_1R_KEY.v0
  v1 := aesenc softAes state.v1 AES_GEN_1R_KEY.v1
  v2 := aesdec softAes state.v2 AES_GEN_1R_KEY.v2
  v3 := aesenc softAes state.v3 AES_GEN_1R_KEY.v3

/-- Two extra rounds, to achieve full diffusion. -/
def diffuse (softAes : Nat) (state : Block) : Block :=
  let state := hashState softAes state
    ⟨AES_HASH_1R_XKEY0, AES_HASH_1R_XKEY0, AES_HASH_1R_XKEY0, AES_HASH_1R_XKEY0⟩
  hashState softAes state
    ⟨AES_HASH_1R_XKEY1, AES_HASH_1R_XKEY1, AES_HASH_1R_XKEY1, AES_HASH_1R_XKEY1⟩

/-! ## The two loops, and both in one -/

/-- `hashAes1Rx4`. -/
def hashAes1Rx4 (softAes : Nat) (input : Nat → Block) (inputSize : Nat) : Block :=
  diffuse softAes (sweep 64 (fun p state => hashState softAes state (input (p / 64)))
    inputSize 0 AES_HASH_1R_STATE).2

/-- `fillAes1Rx4`: the buffer, and the state that is written back. -/
def fillAes1Rx4 (softAes : Nat) (state : Block) (outputSize : Nat) (buffer : Nat → Block) :
    (Nat → Block) × Block :=
  let x : Pass Block Unit Block := ⟨buffer, (), state⟩
  let x := (sweep 64 (fun p x => x.write (fillState softAes) id (p / 64)) outputSize 0 x).2
  (x.mem, x.gen)

/-- `HASH_STATE(k)`. -/
def HASH_STATE (softAes p k : Nat) : Pass Block Block Block → Pass Block Block Block :=
  Pass.read (hashState softAes) (p / 64 + k)

/-- `FILL_STATE(k)`. -/
def FILL_STATE (softAes p k : Nat) : Pass Block Block Block → Pass Block Block Block :=
  Pass.write (fillState softAes) id (p / 64 + k)

def PREFETCH_DISTANCE : Nat := 7168

/-- The inner loop of `hashAndFillAes1Rx4`, which is unrolled. -/
def hashAndFill (softAes unroll stop p : Nat) (x : Pass Block Block Block) :
    Nat × Pass Block Block Block :=
  let HASH := HASH_STATE softAes
  let FILL := FILL_STATE softAes
  match softAes with
  | 0 => sweep 128 (fun p x => FILL p 1 (FILL p 0 (HASH p 1 (HASH p 0 x)))) stop p x
  | _ =>
      match unroll with
      | 4 => sweep 256 (fun p x => FILL p 3 (HASH p 3 (FILL p 2 (HASH p 2
          (FILL p 1 (HASH p 1 (FILL p 0 (HASH p 0 x)))))))) stop p x
      | 2 => sweep 128 (fun p x => FILL p 1 (HASH p 1 (FILL p 0 (HASH p 0 x)))) stop p x
      | _ => sweep 64 (fun p x => FILL p 0 (HASH p 0 x)) stop p x

/-- `hashAndFillAes1Rx4`: the scratchpad, the hash, and the state that is written back.  The
second pass takes what the first leaves, because it prefetches from the start again. -/
def hashAndFillAes1Rx4 (softAes unroll : Nat) (scratchpad : Nat → Block) (scratchpadSize : Nat)
    (state : Block) : (Nat → Block) × Block × Block :=
  let x : Pass Block Block Block := ⟨scratchpad, AES_HASH_1R_STATE, state⟩
  let (p, x) := hashAndFill softAes unroll (scratchpadSize - PREFETCH_DISTANCE) 0 x
  let (_, x) := hashAndFill softAes unroll scratchpadSize p x
  (x.mem, diffuse softAes x.acc, x.gen)

/-! ## Unrolled loops -/

section

variable {α : Type*} {HASH FILL : Nat → Nat → α → α} {D : Nat → Nat → α → Prop}

/-- The loop of `hashAndFill` over any data. -/
def unrolled (HASH FILL : Nat → Nat → α → α) (softAes unroll stop p : Nat) (x : α) : Nat × α :=
  match softAes with
  | 0 => sweep 128 (fun p x => FILL p 1 (FILL p 0 (HASH p 1 (HASH p 0 x)))) stop p x
  | _ =>
      match unroll with
      | 4 => sweep 256 (fun p x => FILL p 3 (HASH p 3 (FILL p 2 (HASH p 2
          (FILL p 1 (HASH p 1 (FILL p 0 (HASH p 0 x)))))))) stop p x
      | 2 => sweep 128 (fun p x => FILL p 1 (HASH p 1 (FILL p 0 (HASH p 0 x)))) stop p x
      | _ => sweep 64 (fun p x => FILL p 0 (HASH p 0 x)) stop p x

theorem hashAndFill_eq {softAes unroll stop p : Nat} {x : Pass Block Block Block} :
    hashAndFill softAes unroll stop p x =
      unrolled (HASH_STATE softAes) (FILL_STATE softAes) softAes unroll stop p x := rfl

omit [AesUnit] in
/-- What holds after `i` blocks are hashed and `j` are filled, if no block is filled before it is
hashed, holds at the end with the blocks before it. -/
theorem unrolled_rule
    (hhash : ∀ {p k j : Nat} {x : α}, D (p / 64 + k) j x → j ≤ p / 64 + k →
      D (p / 64 + (k + 1)) j (HASH p k x))
    (hfill : ∀ {p k i : Nat} {x : α}, D i (p / 64 + k) x → D i (p / 64 + (k + 1)) (FILL p k x))
    (softAes unroll : Nat) {stop p : Nat} {x : α} (hdvd : 256 ∣ stop - p) (hle : p ≤ stop)
    (h : D (p / 64) (p / 64) x) :
    (unrolled HASH FILL softAes unroll stop p x).1 = stop ∧
      D (stop / 64) (stop / 64) (unrolled HASH FILL softAes unroll stop p x).2 := by
  have h128 : 128 ∣ stop - p := .trans (by decide) hdvd
  have h64 : 64 ∣ stop - p := .trans (by decide) hdvd
  -- a block that is hashed and then filled
  have hboth : ∀ {p k : Nat} {x : α}, D (p / 64 + k) (p / 64 + k) x →
      D (p / 64 + (k + 1)) (p / 64 + (k + 1)) (FILL p k (HASH p k x)) :=
    fun h => hfill (hhash h le_rfl)
  -- the blocks of a stride
  have hend : ∀ {p : Nat} {x : α} (n : Nat), D (p / 64 + n) (p / 64 + n) x →
      D ((p + 64 * n) / 64) ((p + 64 * n) / 64) x := by
    intro p x n h
    have hblock : (p + 64 * n) / 64 = p / 64 + n := by omega
    rwa [hblock]
  have hsweep : ∀ {d : Nat} [NeZero d] {f : Nat → α → α}, d ∣ stop - p →
      (∀ p x, D (p / 64) (p / 64) x → D ((p + d) / 64) ((p + d) / 64) (f p x)) →
      (sweep d f stop p x).1 = stop ∧ D (stop / 64) (stop / 64) (sweep d f stop p x).2 :=
    fun hd hstep => sweep_rule (P := fun p x => D (p / 64) (p / 64) x) hd hle h
      fun p x _ _ => hstep p x
  unfold unrolled
  split
  · refine hsweep h128 fun p x h => hend 2 ?_
    exact hfill (hfill (hhash (hhash (k := 0) h le_rfl) (by omega)))
  · split
    · refine hsweep hdvd fun p x h => hend 4 ?_
      exact hboth (hboth (hboth (hboth (k := 0) h)))
    · refine hsweep h128 fun p x h => hend 2 ?_
      exact hboth (hboth (k := 0) h)
    · refine hsweep h64 fun p x h => hend 1 ?_
      exact hboth (k := 0) h

end

/-! ## The loops, block by block -/

variable {softAes unroll size stop p k j : Nat} {x₀ x : Pass Block Block Block}

/-- The hash before its last two rounds, and the generator, after the blocks before `p`. -/
def Swept (softAes : Nat) (x₀ : Pass Block Block Block) (p : Nat) (x : Pass Block Block Block) :
    Prop :=
  Pass.At (hashState softAes) (fillState softAes) id x₀ (p / 64) (p / 64) x

theorem hash_at (h : Pass.At (hashState softAes) (fillState softAes) id x₀ (p / 64 + k) j x)
    (hle : j ≤ p / 64 + k) :
    Pass.At (hashState softAes) (fillState softAes) id x₀ (p / 64 + (k + 1)) j
      (HASH_STATE softAes p k x) := h.read hle

theorem fill_at (h : Pass.At (hashState softAes) (fillState softAes) id x₀ j (p / 64 + k) x) :
    Pass.At (hashState softAes) (fillState softAes) id x₀ j (p / 64 + (k + 1))
      (FILL_STATE softAes p k x) := h.write

/-- However the loop is unrolled, each block is read before it is written. -/
theorem swept_hashAndFill (unroll : Nat) (hdvd : 256 ∣ stop - p) (hle : p ≤ stop)
    (h : Swept softAes x₀ p x) :
    (hashAndFill softAes unroll stop p x).1 = stop ∧
      Swept softAes x₀ stop (hashAndFill softAes unroll stop p x).2 := by
  rw [hashAndFill_eq]
  exact unrolled_rule hash_at fill_at softAes unroll hdvd hle h

/-- Both in one leave what each leaves alone. -/
theorem hashAndFillAes1Rx4_eq (hsize : 256 ∣ size) (m : Nat → Block) (state : Block) :
    hashAndFillAes1Rx4 softAes unroll m size state =
      (overwrite (fillState softAes) id m state (size / 64),
        diffuse softAes (absorb (hashState softAes) m AES_HASH_1R_STATE (size / 64)),
        (fillState softAes)^[size / 64] state) := by
  have hstart : Swept softAes ⟨m, AES_HASH_1R_STATE, state⟩ 0 ⟨m, AES_HASH_1R_STATE, state⟩ := .start
  have hdist : 256 ∣ PREFETCH_DISTANCE := by decide
  have hless : 256 ∣ size - PREFETCH_DISTANCE - 0 := by
    rw [Nat.sub_zero]
    exact Nat.dvd_sub hsize hdist
  have hrest : 256 ∣ size - (size - PREFETCH_DISTANCE) :=
    Nat.dvd_sub hsize (Nat.dvd_sub hsize hdist)
  have hfirst := swept_hashAndFill unroll hless (Nat.zero_le _) hstart
  have hsecond := swept_hashAndFill unroll hrest (Nat.sub_le _ _) hfirst.2
  unfold hashAndFillAes1Rx4
  dsimp only
  rw [hfirst.1, hsecond.2.mem, hsecond.2.acc, hsecond.2.gen]

theorem hashAes1Rx4_eq (hsize : 64 ∣ size) (m : Nat → Block) :
    hashAes1Rx4 softAes m size =
      diffuse softAes (absorb (hashState softAes) m AES_HASH_1R_STATE (size / 64)) := by
  have hsweep : (sweep 64 (fun p state => hashState softAes state (m (p / 64))) size 0
      AES_HASH_1R_STATE).2 = absorb (hashState softAes) m AES_HASH_1R_STATE (size / 64) := by
    refine (sweep_rule (P := fun p state =>
      state = absorb (hashState softAes) m AES_HASH_1R_STATE (p / 64)) hsize (Nat.zero_le _) rfl
      ?_).2
    intro p state _ _ h
    have hblock : (p + 64) / 64 = p / 64 + 1 := by omega
    rw [h, hblock]
    rfl
  unfold hashAes1Rx4
  rw [hsweep]

theorem fillAes1Rx4_eq (hsize : 64 ∣ size) (m : Nat → Block) (state : Block) :
    fillAes1Rx4 softAes state size m =
      (overwrite (fillState softAes) id m state (size / 64),
        (fillState softAes)^[size / 64] state) := by
  have hsweep : ∃ i, Pass.At (fun _ _ => ()) (fillState softAes) id ⟨m, (), state⟩ i (size / 64)
      (sweep 64 (fun p x => x.write (fillState softAes) id (p / 64)) size 0 ⟨m, (), state⟩).2 := by
    refine (sweep_rule (P := fun p x =>
      ∃ i, Pass.At (fun _ _ => ()) (fillState softAes) id ⟨m, (), state⟩ i (p / 64) x) hsize
      (Nat.zero_le _) ⟨0, .start⟩ ?_).2
    rintro p x _ _ ⟨i, hat⟩
    have hblock : (p + 64) / 64 = p / 64 + 1 := by omega
    rw [hblock]
    exact ⟨i, hat.write⟩
  obtain ⟨i, hat⟩ := hsweep
  unfold fillAes1Rx4
  dsimp only
  rw [hat.mem, hat.gen]

/-- The hash does not depend on the version in software. -/
theorem hashState_soft (h : softAes ≠ 0) : hashState softAes = hashState 1 := by
  funext state block
  simp only [hashState, aesenc_soft h, aesdec_soft h]

theorem fillState_soft (h : softAes ≠ 0) : fillState softAes = fillState 1 := by
  funext state
  simp only [fillState, aesenc_soft h, aesdec_soft h]

theorem diffuse_soft (h : softAes ≠ 0) : diffuse softAes = diffuse 1 := by
  funext state
  simp only [diffuse, hashState_soft h]

end

end XLArig
