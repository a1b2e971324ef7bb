import XLArig.CryptoNight

/-!
# XLArig.CryptoNight.Within

Where the bytes are that the hash functions read and write.

Without interleaving, every pointer into a scratchpad is its start plus the masked index,
possibly with bits 4 and 5 flipped, or steps through it in strides of 64 bytes
(`cnExplodeScratchpad_within`, `mainLoop_within`, `cnImplodeScratchpad_within`).  With
interleaving, the strides lead out of it (`cnExplodeScratchpad_touches`).
-/

namespace XLArig

open Traced CnAlgo Algorithm

/-! ## Indices -/

/-- The mask keeps the multiples of 16 below a power of two that fits the scratchpad. -/
theorem mask_spec (a : Algorithm) :
    ∃ k, 6 ≤ k ∧ (mask a).toNat + 16 = 2 ^ k ∧ 2 ^ k ≤ memory a := by
  cases a with
  | CN_LITE_0 | CN_LITE_1 => exact ⟨20, by decide⟩
  | CN_HEAVY_0 | CN_HEAVY_TUBE | CN_HEAVY_XHV => exact ⟨22, by decide⟩
  | CN_PICO_0 => exact ⟨17, by decide⟩
  | CN_PICO_TLO => exact ⟨18, by decide⟩
  | _ => exact ⟨21, by decide⟩

/-- A multiple of 16 below `2 ^ k`. -/
def IsVector (k : Nat) (i : UInt64) : Prop := i.toNat % 16 = 0 ∧ i.toNat < 2 ^ k

theorem IsVector.add_le {k : Nat} {i : UInt64} (hk : 6 ≤ k) (h : IsVector k i) :
    i.toNat + 16 ≤ 2 ^ k := by
  have h16 : 16 ∣ 2 ^ k := pow_dvd_pow 2 (show 4 ≤ k by omega)
  have := h.1
  have := h.2
  omega

theorem isVector_and {x m : UInt64} {k : Nat} (hk : 6 ≤ k) (hm : m.toNat + 16 = 2 ^ k) :
    IsVector k (x &&& m) := by
  have hlow : m.toNat % 2 ^ 4 = 0 := by
    have h16 : 16 ∣ 2 ^ k := pow_dvd_pow 2 (show 4 ≤ k by omega)
    omega
  rw [IsVector, UInt64.toNat_and]
  constructor
  · have h := Nat.and_mod_two_pow (a := x.toNat) (b := m.toNat) (n := 4)
    rwa [hlow, Nat.and_zero] at h
  · exact lt_of_le_of_lt Nat.and_le_right (by omega)

/-- Flipping bits 4 and 5 leads to another vector. -/
theorem IsVector.xor {y c : UInt64} {k : Nat} (hk : 6 ≤ k) (h : IsVector k y)
    (hc : IsVector 6 c) : IsVector k (y ^^^ c) := by
  have hy : y.toNat % 2 ^ 4 = 0 := h.1
  have hlow : c.toNat % 2 ^ 4 = 0 := hc.1
  have hlt : c.toNat < 2 ^ k := lt_of_lt_of_le hc.2 (Nat.pow_le_pow_right (by omega) hk)
  rw [IsVector, UInt64.toNat_xor]
  constructor
  · have hmod := Nat.xor_mod_two_pow (a := y.toNat) (b := c.toNat) (n := 4)
    rwa [hy, hlow, Nat.xor_self] at hmod
  · exact Nat.xor_lt_two_pow h.2 hlt

/-- The masked index is that of a vector in the scratchpad. -/
theorem index_le (a : Algorithm) (x : UInt64) : (x &&& mask a).toNat + 16 ≤ memory a := by
  obtain ⟨k, hk, hm, hle⟩ := mask_spec a
  exact le_trans ((isVector_and hk hm).add_le hk) hle

theorem chunk_le (a : Algorithm) (x : UInt64) {c : UInt64} (hc : IsVector 6 c) :
    ((x &&& mask a) ^^^ c).toNat + 16 ≤ memory a := by
  obtain ⟨k, hk, hm, hle⟩ := mask_spec a
  exact le_trans (((isVector_and hk hm).xor hk hc).add_le hk) hle

/-! ## Lanes -/

/-- The bytes lie in the part of their lane, one of `n` parts of `size` bytes. -/
def Span.Within (start size n : Nat) (t : Span) : Prop :=
  t.number < n ∧ start + t.number * size ≤ t.pos ∧ t.pos + t.size ≤ start + (t.number + 1) * size

/-- Lane `number` starts at `l`. -/
def Placed (start size n number l : Nat) : Prop := number < n ∧ l = start + number * size

section

variable {start size n number l p k : Nat}

theorem Placed.within (h : Placed start size n number l) (hp : l ≤ p) (hk : p + k ≤ l + size) :
    Span.Within start size n ⟨number, p, k⟩ := by
  obtain ⟨hn, rfl⟩ := h
  refine ⟨hn, hp, ?_⟩
  have hnext : (number + 1) * size = number * size + size := Nat.succ_mul number size
  show p + k ≤ start + (number + 1) * size
  omega

end

/-- A lane of the main loop in its place. -/
def CnLane.Placed (a : Algorithm) (start n : Nat) (c : CnLane) : Prop :=
  XLArig.Placed start (memory a) n c.number c.l

/-! ## The main loop -/

namespace CnLane

section

variable {a : Algorithm} {start n i k : Nat} {c : CnLane}

/-- What lies in the vector at the index. -/
theorem within_ptr (hc : c.Placed a start n) (hi : i + k ≤ 16) :
    Span.Within start (memory a) n ⟨c.number, c.ptr a 0 + i, k⟩ := by
  have hle := index_le a c.idx
  have hptr : c.ptr a 0 = c.l + (c.idx &&& mask a).toNat := rfl
  exact hc.within (by omega) (by omega)

theorem within_chunk (hc : c.Placed a start n) {x : UInt64} (hx : IsVector 6 x) (hi : i + k ≤ 16) :
    Span.Within start (memory a) n ⟨c.number, c.chunk a x + i, k⟩ := by
  have hle := chunk_le a c.idx hx
  exact hc.within (by rw [chunk]; omega) (by rw [chunk]; omega)

theorem isVector_chunk {x : UInt64} (h : x = 0x10 ∨ x = 0x20 ∨ x = 0x30) : IsVector 6 x := by
  rcases h with rfl | rfl | rfl <;> exact ⟨by decide, by decide⟩

/-- A vector that a `VARIANT2` macro loads or stores. -/
theorem chunk_within (hc : c.Placed a start n) {x : UInt64} (h : x = 0x10 ∨ x = 0x20 ∨ x = 0x30) :
    Span.Within start (memory a) n ⟨c.number, c.chunk a x, 16⟩ :=
  within_chunk hc (isVector_chunk h) (i := 0) le_rfl

theorem ptr_within (hc : c.Placed a start n) (hk : k ≤ 16) :
    Span.Within start (memory a) n ⟨c.number, c.ptr a 0, k⟩ :=
  within_ptr hc (i := 0) (by omega)

/-- `Confined` to the parts of the lanes. -/
abbrev Inside (a : Algorithm) (start n : Nat) {α : Type} (x : Prog α) (Q : α → Prop) : Prop :=
  Confined (Span.Within start (memory a) n) x Q

theorem variant2Shuffle_within (hc : c.Placed a start n) (reverse : Bool) (cx : M128i) :
    Inside a start n (c.variant2Shuffle a reverse cx) fun _ => True := by
  unfold variant2Shuffle
  refine confined_seq (confined_read _ (chunk_within hc ?_)) fun chunk1 => ?_
  · cases reverse <;> simp
  refine confined_seq (confined_read _ (chunk_within hc (by simp))) fun chunk2 => ?_
  refine confined_seq (confined_read _ (chunk_within hc ?_)) fun chunk3 => ?_
  · cases reverse <;> simp
  refine confined_seq (confined_write _ (chunk_within hc (by simp))) fun _ => ?_
  refine confined_seq (confined_write _ (chunk_within hc (by simp))) fun _ => ?_
  refine confined_seq (confined_write _ (chunk_within hc (by simp))) fun _ => ?_
  exact confined_pure trivial

theorem variant2Shuffle2_within (hc : c.Placed a start n) (reverse : Bool) (hi lo : UInt64) :
    Inside a start n (c.variant2Shuffle2 a reverse hi lo) fun _ => True := by
  have h20 : IsVector 6 0x20 := isVector_chunk (by simp)
  unfold variant2Shuffle2
  refine confined_seq (confined_read _ (chunk_within hc (by simp))) fun chunk1 => ?_
  refine confined_seq (confined_read _ (chunk_within hc (by simp))) fun chunk2 => ?_
  refine confined_seq (confined_read _ (within_chunk hc h20 (i := 0) (by omega))) fun hi' => ?_
  refine confined_seq (confined_read _ (within_chunk hc h20 (by omega))) fun lo' => ?_
  refine confined_seq (confined_read _ (chunk_within hc (by simp))) fun chunk3 => ?_
  refine confined_seq (confined_write _ (chunk_within hc (by simp))) fun _ => ?_
  refine confined_seq (confined_write _ (chunk_within hc (by simp))) fun _ => ?_
  refine confined_seq (confined_write _ (chunk_within hc (by simp))) fun _ => ?_
  exact confined_pure trivial

theorem cryptonightMoneroTweak_within (hc : c.Placed a start n) :
    Inside a start n (c.cryptonightMoneroTweak a 0) (CnLane.Placed a start n) := by
  unfold cryptonightMoneroTweak
  refine Confined.ite (fun _ => ?_) fun _ => ?_
  · refine confined_seq (variant2Shuffle_within hc _ _) fun cx => ?_
    refine confined_seq (confined_write _ (ptr_within hc (by omega))) fun _ => ?_
    exact confined_pure hc
  · refine confined_seq (confined_write _ (ptr_within hc (by omega))) fun _ => ?_
    refine confined_seq (confined_write _ (within_ptr hc (by omega))) fun _ => ?_
    exact confined_pure hc

theorem tweakPhase_within (hc : c.Placed a start n) :
    Inside a start n (c.tweakPhase a 0) (CnLane.Placed a start n) := by
  unfold tweakPhase
  refine Confined.ite (fun _ => cryptonightMoneroTweak_within hc) fun _ => ?_
  refine confined_seq (confined_write _ (ptr_within hc (by omega))) fun _ => ?_
  exact confined_pure hc

theorem followPhase_within (hc : c.Placed a start n) :
    Inside a start n (c.followPhase a 0) (CnLane.Placed a start n) := by
  have hfollow : CnLane.Placed a start n { c with idx := c.cx.lo } := hc
  refine confined_seq (confined_read _ (ptr_within hfollow (by omega))) fun cl => ?_
  refine confined_seq (confined_read _ (within_ptr hfollow (by omega))) fun ch => ?_
  exact confined_pure hc

theorem storeWords_within (hc : c.Placed a start n) :
    Inside a start n (c.storeWords a 0) (CnLane.Placed a start n) := by
  refine confined_seq (confined_write _ (ptr_within hc (by omega))) fun _ => ?_
  refine confined_seq (confined_write _ (within_ptr hc (by omega))) fun _ => ?_
  exact confined_pure hc

theorem storeVector_within (hc : c.Placed a start n) :
    Inside a start n (c.storeVector a 0) (CnLane.Placed a start n) := by
  unfold storeVector
  refine Confined.ite (fun _ => ?_) fun _ => ?_
  · refine confined_seq (confined_write _ (ptr_within hc (by omega))) fun _ => ?_
    refine Confined.ite (fun _ => ?_) fun _ => confined_pure hc
    refine confined_seq (confined_read _ (within_ptr hc (by omega))) fun w1 => ?_
    refine confined_seq (confined_read _ (ptr_within hc (by omega))) fun w0 => ?_
    refine confined_seq (confined_write _ (within_ptr hc (by omega))) fun _ => ?_
    exact confined_pure hc
  · refine confined_seq (confined_write _ (ptr_within hc (by omega))) fun _ => ?_
    exact confined_pure hc

theorem heavyPhase_within (hc : c.Placed a start n) :
    Inside a start n (c.heavyPhase a 0) (CnLane.Placed a start n) := by
  unfold heavyPhase
  refine Confined.ite (fun _ => ?_) fun _ => confined_pure hc
  refine confined_seq (confined_read _ (ptr_within hc (by omega))) fun w => ?_
  refine confined_seq (confined_read _ (within_ptr hc (by omega))) fun d => ?_
  refine confined_seq (confined_write _ (ptr_within hc (by omega))) fun _ => ?_
  exact confined_pure hc

theorem turnPhase_within (hc : c.Placed a start n) :
    Inside a start n (c.turnPhase a 0) (CnLane.Placed a start n) :=
  confined_bind (heavyPhase_within hc) fun _ hc => confined_pure hc

end

section

variable [CnUnit] {a : Algorithm} {soft : Bool} {height : UInt64} {start n : Nat} {c : CnLane}

theorem loadCx_within (hc : c.Placed a start n) :
    Inside a start n (c.loadCx a 0) (CnLane.Placed a start n) := by
  unfold loadCx
  refine confined_seq (confined_read _ (ptr_within hc (by omega))) fun cx => ?_
  exact Confined.ite (fun _ => confined_pure hc) fun _ => confined_pure hc

theorem loadPhase_within (hc : c.Placed a start n) :
    Inside a start n (c.loadPhase a soft 0) (CnLane.Placed a start n) :=
  Confined.ite (fun _ => loadCx_within hc) fun _ => confined_pure hc

theorem aesPhase_within (hc : c.Placed a start n) :
    Inside a start n (c.aesPhase a soft 0) (CnLane.Placed a start n) := by
  unfold aesPhase
  refine Confined.ite (fun _ => confined_pure hc) fun _ => ?_
  refine Confined.ite (fun _ => ?_) fun _ => confined_pure hc
  exact confined_bind (loadCx_within hc) fun c hc => confined_pure hc

/-- The arithmetic leaves a lane where it is. -/
theorem placed_math (height : UInt64) (hc : c.Placed a start n) :
    CnLane.Placed a start n
      (if base a = CN_2 then
        if isR a then c.variant4RandomMath a height else c.variant2IntegerMath
      else c) := by
  split_ifs
  · exact hc
  · exact hc
  · exact hc

theorem mathPhase_within (hc : c.Placed a start n) :
    Inside a start n (c.mathPhase a height) (CnLane.Placed a start n) := by
  unfold mathPhase
  have hmath := placed_math height hc
  refine Confined.ite (fun _ => ?_) fun _ => confined_pure hmath
  refine Confined.ite (fun _ => ?_) fun _ => ?_
  · exact confined_seq (variant2Shuffle_within hc _ _) fun cx => confined_pure hmath
  · exact confined_seq (variant2Shuffle2_within hc _ _ _) fun product => confined_pure hmath

theorem wordPhases_within (height : UInt64) :
    ∀ phase ∈ wordPhases a soft 0 height, ∀ c, CnLane.Placed a start n c →
      Inside a start n (phase c) (CnLane.Placed a start n) := by
  intro phase hphase c hc
  simp only [wordPhases, List.mem_cons, List.not_mem_nil, or_false] at hphase
  rcases hphase with rfl | rfl | rfl | rfl
  · exact loadPhase_within hc
  · exact aesPhase_within hc
  · exact tweakPhase_within hc
  · refine confined_bind (followPhase_within hc) fun c hc => ?_
    refine confined_bind (mathPhase_within hc) fun c hc => ?_
    refine confined_bind (storeWords_within hc) fun c hc => ?_
    exact turnPhase_within hc

theorem stepPhases_within (height : UInt64) :
    ∀ phase ∈ stepPhases a soft height, ∀ c, CnLane.Placed a start n c →
      Inside a start n (phase c) (CnLane.Placed a start n) := by
  intro phase hphase c hc
  simp only [stepPhases, List.mem_cons, List.not_mem_nil, or_false] at hphase
  rcases hphase with rfl | rfl | rfl | rfl
  · exact loadCx_within hc
  · exact tweakPhase_within hc
  · exact followPhase_within hc
  · refine confined_bind (mathPhase_within hc) fun c hc => ?_
    refine confined_bind (storeVector_within hc) fun c hc => ?_
    exact turnPhase_within hc

end

end CnLane

section

variable {a : Algorithm} {start n : Nat} {c : CnCtx}

open CnLane

/-- The lanes keep to their parts through all rounds. -/
theorem mainLoop_within {phases : List (CnLane → Prog CnLane)} {lanes : List CnLane}
    (hphases : ∀ phase ∈ phases, ∀ c, CnLane.Placed a start n c →
      Inside a start n (phase c) (CnLane.Placed a start n))
    (hlanes : ∀ c ∈ lanes, CnLane.Placed a start n c) :
    Inside a start n (mainLoop a phases lanes) fun _ => True := by
  have hloop : Inside a start n (mainLoop a phases lanes)
      fun lanes => ∀ c ∈ lanes, CnLane.Placed a start n c := by
    refine confined_loop (I := fun _ lanes => ∀ c ∈ lanes, CnLane.Placed a start n c) hlanes ?_
    intro _ lanes _ hlanes
    refine confined_inTurn hlanes fun turn hturn lanes hlanes => ?_
    obtain ⟨phase, hphase, rfl⟩ := List.mem_map.mp hturn
    exact confined_each fun c hc => hphases phase hphase c (hlanes c hc)
  exact hloop.mono fun _ _ => trivial

/-! ## The passes over the scratchpad -/

/-- A context in its place. -/
def CnCtx.Placed (a : Algorithm) (start n : Nat) (c : CnCtx) : Prop :=
  XLArig.Placed start (CnAlgo.memory a) n c.number c.memory

/-- The rounds cover the scratchpad. -/
theorem rounds_mul (a : Algorithm) : rounds a * 128 = memory a := by
  cases a <;> decide

/-- The half of a round that starts at `p`. -/
theorem within_half (hc : c.Placed a start n) {p i k : Nat} (hp : c.memory ≤ p)
    (hle : p + 64 ≤ c.memory + memory a) (hi : i + k ≤ 64) :
    Span.Within start (memory a) n ⟨c.number, p + i, k⟩ :=
  hc.within (by omega) (by omega)

theorem storeHalf_within (hc : c.Placed a start n) {p : Nat} (hp : c.memory ≤ p)
    (hle : p + 64 ≤ c.memory + memory a) (v0 v1 v2 v3 : M128i) :
    Inside a start n (storeHalf c.number p v0 v1 v2 v3) fun _ => True := by
  refine confined_seq (confined_write _ (within_half hc hp hle (i := 0) (by omega))) fun _ => ?_
  refine confined_seq (confined_write _ (within_half hc hp hle (by omega))) fun _ => ?_
  refine confined_seq (confined_write _ (within_half hc hp hle (by omega))) fun _ => ?_
  exact confined_write _ (within_half hc hp hle (by omega))

theorem loadHalf_within (hc : c.Placed a start n) {p : Nat} (hp : c.memory ≤ p)
    (hle : p + 64 ≤ c.memory + memory a) :
    Inside a start n (loadHalf c.number p) fun _ => True := by
  refine confined_seq (confined_read _ (within_half hc hp hle (i := 0) (by omega))) fun _ => ?_
  refine confined_seq (confined_read _ (within_half hc hp hle (by omega))) fun _ => ?_
  refine confined_seq (confined_read _ (within_half hc hp hle (by omega))) fun _ => ?_
  refine confined_seq (confined_read _ (within_half hc hp hle (by omega))) fun _ => ?_
  exact confined_pure trivial

end

section

variable [CnUnit] {a : Algorithm} {soft : Bool} {start n : Nat} {c : CnCtx}

open CnLane

variable (soft) in
theorem cnExplodeScratchpad_within (hc : c.Placed a start n) :
    Inside a start n (cnExplodeScratchpad a soft 0 c) fun _ => True := by
  have hrounds := rounds_mul a
  have hstride : stride 0 = 64 := by decide
  refine confined_bind (Q := fun _ => True) ?_ fun _ _ => confined_pure trivial
  refine (confined_loop (I := fun i s => s.1 = c.memory + i * 128) (by simp) ?_).mono
    fun _ _ => trivial
  rintro i ⟨output, xin⟩ hi rfl
  refine confined_seq (storeHalf_within hc (by omega) (by omega) _ _ _ _) fun _ => ?_
  refine confined_seq (storeHalf_within hc (by omega) (by omega) _ _ _ _) fun _ => ?_
  exact confined_pure (by dsimp only; omega)

theorem implodePass_within (hc : c.Placed a start n) (keys : List M128i) (xout : Octet) :
    Inside a start n (implodePass a soft 0 c keys xout) fun _ => True := by
  have hrounds := rounds_mul a
  have hstride : stride 0 = 64 := by decide
  refine confined_bind (Q := fun _ => True) ?_ fun _ _ => confined_pure trivial
  refine (confined_loop (I := fun i s => s.1 = c.memory + i * 128) (by simp) ?_).mono
    fun _ _ => trivial
  rintro i ⟨input, xout⟩ hi rfl
  refine confined_seq (loadHalf_within hc (by omega) (by omega)) fun _ => ?_
  refine confined_seq (loadHalf_within hc (by omega) (by omega)) fun _ => ?_
  exact confined_pure (by dsimp only; omega)

theorem implodePasses_within (hc : c.Placed a start n) (keys : List M128i) (xout : Octet) :
    Inside a start n (implodePasses a soft 0 c keys xout) fun _ => True := by
  refine confined_seq (implodePass_within hc _ _) fun xout => ?_
  exact Confined.ite (fun _ => implodePass_within hc _ _) fun _ => confined_pure trivial

theorem cnImplodeScratchpad_within (hc : c.Placed a start n) :
    Inside a start n (cnImplodeScratchpad a soft 0 c) fun _ => True :=
  confined_seq (implodePasses_within hc _ _) fun _ => confined_pure trivial

/-! ## The hashes -/

section

variable {input : List UInt8} {size : Nat} {ctx : List CnCtx}
  {phases : List (CnLane → Prog CnLane)}

theorem cryptonightHash_within (hctx : ∀ c ∈ ctx, CnCtx.Placed a start n c)
    (hphases : ∀ phase ∈ phases, ∀ c, CnLane.Placed a start n c →
      Inside a start n (phase c) (CnLane.Placed a start n)) :
    Inside a start n (cryptonightHash a soft 0 input size ctx phases) fun _ => True := by
  unfold cryptonightHash
  refine Confined.ite (fun _ => confined_pure trivial) fun _ => ?_
  have hkeccak : ∀ c ∈ ctx.map (keccakLane input size), CnCtx.Placed a start n c :=
    List.forall_mem_map.mpr fun c hc => hctx c hc
  have hlanes : ∀ c ∈ (ctx.map (keccakLane input size)).map (CnLane.init a input size),
      CnLane.Placed a start n c := List.forall_mem_map.mpr fun c hc => hkeccak c hc
  have hexplode := confined_each (S := fun _ => True) fun c hc =>
    cnExplodeScratchpad_within soft (hkeccak c hc)
  refine confined_bind hexplode fun _ _ => ?_
  refine confined_seq (mainLoop_within hphases hlanes) fun _ => ?_
  refine (confined_each (S := fun _ => True) fun c hc => ?_).mono fun _ _ => trivial
  exact confined_seq (cnImplodeScratchpad_within (hkeccak c hc)) fun _ => confined_pure trivial

end

/-! ## Interleaving -/

/-- The first store of each round: the rounds are `2 * stride` bytes apart. -/
theorem cnExplodeScratchpad_touches (soft : Bool) (c : CnCtx) (interleave : Nat) {i : Nat}
    (hi : i < rounds a) :
    Touches ⟨c.number, c.memory + i * (2 * stride interleave), 16⟩
      (cnExplodeScratchpad a soft interleave c) := by
  refine touches_bind_left (touches_loop hi
    (I := fun i s => s.1 = c.memory + i * (2 * stride interleave)) (by simp) ?_ ?_)
  · rintro i ⟨output, xin⟩ rfl
    refine confined_seq (confined_true _) fun _ => ?_
    refine confined_seq (confined_true _) fun _ => ?_
    exact confined_pure (by ring)
  · rintro ⟨output, xin⟩ rfl
    exact touches_bind_left (touches_bind_left (touches_write _))

/-- A hash that is not refused starts by filling the scratchpads. -/
theorem cryptonightHash_touches {input : List UInt8} {size interleave i : Nat} {cs : List CnCtx}
    {phases : List (CnLane → Prog CnLane)} (hsize : ¬ (CnAlgo.base a = CN_1 ∧ size < 43))
    (hi : i < rounds a) :
    Touches ⟨c.number, c.memory + i * (2 * stride interleave), 16⟩
      (cryptonightHash a soft interleave input size (c :: cs) phases) := by
  unfold cryptonightHash
  rw [if_neg hsize]
  have hfirst := cnExplodeScratchpad_touches soft (keccakLane input size c) interleave hi
  exact touches_bind_left (touches_bind_left hfirst)

end

end XLArig
