import XLArig.CryptoNight.Lanes
import XLArig.CryptoNight.Within

/-!
# XLArig.CryptoNight.Alone

The phases of a lane, in a store with other lanes and alone.

A phase looks at the registers and at the lane's scratchpad, and the number of the lane is in
its notes only: two lanes with the same registers do the same on scratchpads with the same
bytes (`loadCx_sim`, …, `turnPhase_sim`), and so do the passes over a scratchpad
(`Passes.source`).
-/

namespace XLArig

open Traced CnAlgo Algorithm

/-! ## Loads and stores in a region -/

section

variable {r : Set Nat} {i j p : Nat}

theorem sim_load128 (h : p ∈ r) (h8 : p + 8 ∈ r) : Sim r (load128 i p) (load128 j p) Eq :=
  sim_read fun _ _ hm => by rw [hm h, hm h8]

theorem sim_load64 (h : p ∈ r) : Sim r (load64 i p) (load64 j p) Eq :=
  sim_read fun _ _ hm => hm h

theorem sim_load32 (h : p ∈ r) : Sim r (load32 i p) (load32 j p) Eq :=
  sim_read fun _ _ hm => by rw [hm h]

theorem sim_store64 (h : p ∈ r) (v : UInt64) :
    Sim r (store64 i p v) (store64 j p v) fun _ _ => True := by
  refine sim_write (fun m m' hm q hq => ?_) fun m q hq => ?_
  · simp only [hm hq]
  · have hne : q ≠ p := fun heq => hq (heq ▸ h)
    simp only [if_neg hne]

theorem sim_store128 (h : p ∈ r) (h8 : p + 8 ∈ r) (v : M128i) :
    Sim r (store128 i p v) (store128 j p v) fun _ _ => True := by
  refine sim_write (fun m m' hm q hq => ?_) fun m q hq => ?_
  · simp only [hm hq]
  · have hne : q ≠ p := fun heq => hq (heq ▸ h)
    have hne8 : q ≠ p + 8 := fun heq => hq (heq ▸ h8)
    simp only [if_neg hne, if_neg hne8]

end

namespace CnLane

/-! ## Lanes with the same registers -/

/-- The lanes differ in their numbers, and in registers that the algorithm does not use; `r` is
the scratchpad. -/
def Alike (a : Algorithm) (r : Set Nat) (c c' : CnLane) : Prop :=
  r = pad a c.l ∧ ∃ number division sqrt random,
    c' = { c with
      number := number, divisionResult := division, sqrtResult := sqrt, r := random } ∧
    (base a = CN_2 → division = c.divisionResult ∧ sqrt = c.sqrtResult) ∧
    (isR a → random = c.r)

section

variable {a : Algorithm} {r : Set Nat} {c c' : CnLane}

/-- The words of the vector at the index. -/
theorem ptr_mem (c : CnLane) {k : Nat} (hk : k ≤ 8) : c.ptr a 0 + k ∈ pad a c.l := by
  have hle := index_le a c.idx
  have hptr : c.ptr a 0 = c.l + (c.idx &&& mask a).toNat := rfl
  exact Set.mem_Ico.mpr ⟨by omega, by omega⟩

/-- The words of the vectors that a `VARIANT2` macro loads or stores. -/
theorem chunk_mem (c : CnLane) {x : UInt64} (hx : x = 0x10 ∨ x = 0x20 ∨ x = 0x30) {k : Nat}
    (hk : k ≤ 8) : c.chunk a x + k ∈ pad a c.l := by
  have hle := chunk_le a c.idx (isVector_chunk hx)
  exact Set.mem_Ico.mpr ⟨by rw [chunk]; omega, by rw [chunk]; omega⟩

theorem sim_loadPtr (c : CnLane) {i j : Nat} :
    Sim (pad a c.l) (load128 i (c.ptr a 0)) (load128 j (c.ptr a 0)) Eq :=
  sim_load128 (c.ptr_mem (k := 0) (by omega)) (c.ptr_mem le_rfl)

theorem sim_storePtr (c : CnLane) {i j : Nat} (v : M128i) :
    Sim (pad a c.l) (store128 i (c.ptr a 0) v) (store128 j (c.ptr a 0) v) fun _ _ => True :=
  sim_store128 (c.ptr_mem (k := 0) (by omega)) (c.ptr_mem le_rfl) v

theorem sim_loadChunk (c : CnLane) {x : UInt64} (hx : x = 0x10 ∨ x = 0x20 ∨ x = 0x30)
    {i j : Nat} : Sim (pad a c.l) (load128 i (c.chunk a x)) (load128 j (c.chunk a x)) Eq :=
  sim_load128 (c.chunk_mem hx (k := 0) (by omega)) (c.chunk_mem hx le_rfl)

theorem sim_storeChunk (c : CnLane) {x : UInt64} (hx : x = 0x10 ∨ x = 0x20 ∨ x = 0x30)
    {i j : Nat} (v : M128i) :
    Sim (pad a c.l) (store128 i (c.chunk a x) v) (store128 j (c.chunk a x) v) fun _ _ => True :=
  sim_store128 (c.chunk_mem hx (k := 0) (by omega)) (c.chunk_mem hx le_rfl) v

/-- What an AES round makes of `cx`. -/
theorem Alike.aes {f : M128i → M128i → M128i} (h : Alike a r c c') :
    Alike a r { c with cx := f c.cx c.ax } { c' with cx := f c'.cx c'.ax } := by
  obtain ⟨rfl, number, division, sqrt, random, rfl, hmath⟩ := h
  exact ⟨rfl, number, division, sqrt, random, rfl, hmath⟩

theorem variant2Shuffle_sim (h : Alike a r c c') (reverse : Bool) (cx : M128i) :
    Sim r (c.variant2Shuffle a reverse cx) (c'.variant2Shuffle a reverse cx) Eq := by
  obtain ⟨rfl, number, division, sqrt, random, rfl, -⟩ := h
  refine sim_same (c.sim_loadChunk ?_) fun chunk1 => ?_
  · cases reverse <;> simp
  refine sim_same (c.sim_loadChunk (by simp)) fun chunk2 => ?_
  refine sim_same (c.sim_loadChunk ?_) fun chunk3 => ?_
  · cases reverse <;> simp
  refine sim_seq (c.sim_storeChunk (by simp) _) fun _ _ => ?_
  refine sim_seq (c.sim_storeChunk (by simp) _) fun _ _ => ?_
  refine sim_seq (c.sim_storeChunk (by simp) _) fun _ _ => ?_
  exact sim_pure rfl

theorem variant2Shuffle2_sim (h : Alike a r c c') (reverse : Bool) (hi lo : UInt64) :
    Sim r (c.variant2Shuffle2 a reverse hi lo) (c'.variant2Shuffle2 a reverse hi lo) Eq := by
  obtain ⟨rfl, number, division, sqrt, random, rfl, -⟩ := h
  refine sim_same (c.sim_loadChunk (by simp)) fun chunk1 => ?_
  refine sim_same (c.sim_loadChunk (by simp)) fun chunk2 => ?_
  refine sim_same (sim_load64 (c.chunk_mem (by simp) (k := 0) (by omega))) fun hi' => ?_
  refine sim_same (sim_load64 (c.chunk_mem (by simp) le_rfl)) fun lo' => ?_
  refine sim_same (c.sim_loadChunk (by simp)) fun chunk3 => ?_
  refine sim_seq (c.sim_storeChunk (by simp) _) fun _ _ => ?_
  refine sim_seq (c.sim_storeChunk (by simp) _) fun _ _ => ?_
  refine sim_seq (c.sim_storeChunk (by simp) _) fun _ _ => ?_
  exact sim_pure rfl

theorem tweakPhase_sim (h : Alike a r c c') :
    Sim r (c.tweakPhase a 0) (c'.tweakPhase a 0) (Alike a r) := by
  have halike := h
  obtain ⟨rfl, number, division, sqrt, random, rfl, hmath⟩ := h
  refine sim_ite (fun _ => sim_ite (fun _ => ?_) fun _ => ?_) fun _ => ?_
  · refine sim_same (variant2Shuffle_sim halike _ _) fun cx => ?_
    refine sim_seq (c.sim_storePtr _) fun _ _ => ?_
    exact sim_pure ⟨rfl, number, division, sqrt, random, rfl, hmath⟩
  · refine sim_seq (sim_store64 (c.ptr_mem (k := 0) (by omega)) _) fun _ _ => ?_
    refine sim_seq (sim_store64 (c.ptr_mem le_rfl) _) fun _ _ => ?_
    exact sim_pure halike
  · refine sim_seq (c.sim_storePtr _) fun _ _ => ?_
    exact sim_pure halike

theorem followPhase_sim (h : Alike a r c c') :
    Sim r (c.followPhase a 0) (c'.followPhase a 0) (Alike a r) := by
  obtain ⟨rfl, number, division, sqrt, random, rfl, hmath⟩ := h
  let d : CnLane := { c with idx := c.cx.lo }
  refine sim_same (sim_load64 (d.ptr_mem (k := 0) (by omega))) fun cl => ?_
  refine sim_same (sim_load64 (d.ptr_mem le_rfl)) fun ch => ?_
  exact sim_pure ⟨rfl, number, division, sqrt, random, rfl, hmath⟩

theorem storeWords_sim (h : Alike a r c c') :
    Sim r (c.storeWords a 0) (c'.storeWords a 0) (Alike a r) := by
  have halike := h
  obtain ⟨rfl, number, division, sqrt, random, rfl, hmath⟩ := h
  refine sim_seq (sim_store64 (c.ptr_mem (k := 0) (by omega)) _) fun _ _ => ?_
  refine sim_seq (sim_store64 (c.ptr_mem le_rfl) _) fun _ _ => ?_
  exact sim_pure halike

theorem storeVector_sim (h : Alike a r c c') :
    Sim r (c.storeVector a 0) (c'.storeVector a 0) (Alike a r) := by
  have halike := h
  obtain ⟨rfl, number, division, sqrt, random, rfl, hmath⟩ := h
  refine sim_ite (fun _ => ?_) fun _ => ?_
  · refine sim_seq (c.sim_storePtr _) fun _ _ => ?_
    refine sim_ite (fun _ => ?_) fun _ => sim_pure halike
    refine sim_same (sim_load64 (c.ptr_mem le_rfl)) fun w1 => ?_
    refine sim_same (sim_load64 (c.ptr_mem (k := 0) (by omega))) fun w0 => ?_
    refine sim_seq (sim_store64 (c.ptr_mem le_rfl) _) fun _ _ => ?_
    exact sim_pure halike
  · refine sim_seq (c.sim_storePtr _) fun _ _ => ?_
    exact sim_pure halike

theorem heavyPhase_sim (h : Alike a r c c') :
    Sim r (c.heavyPhase a 0) (c'.heavyPhase a 0) (Alike a r) := by
  have halike := h
  obtain ⟨rfl, number, division, sqrt, random, rfl, hmath⟩ := h
  refine sim_ite (fun _ => ?_) fun _ => sim_pure halike
  refine sim_same (sim_load64 (c.ptr_mem (k := 0) (by omega))) fun n => ?_
  refine sim_same (sim_load32 (c.ptr_mem le_rfl)) fun d => ?_
  refine sim_seq (sim_store64 (c.ptr_mem (k := 0) (by omega)) _) fun _ _ => ?_
  exact sim_pure ⟨rfl, number, division, sqrt, random, rfl, hmath⟩

theorem turnPhase_sim (h : Alike a r c c') :
    Sim r (c.turnPhase a 0) (c'.turnPhase a 0) (Alike a r) := by
  obtain ⟨rfl, number, division, sqrt, random, rfl, hmath⟩ := h
  refine sim_bind (heavyPhase_sim ⟨rfl, number, division, sqrt, random, rfl, hmath⟩) ?_
  rintro c _ ⟨hr, number, division, sqrt, random, rfl, hmath⟩
  exact sim_pure ⟨hr, number, division, sqrt, random, rfl, hmath⟩

end

section

variable [CnUnit] {a : Algorithm} {soft : Bool} {height : UInt64} {r : Set Nat} {c c' : CnLane}

theorem loadCx_sim (h : Alike a r c c') : Sim r (c.loadCx a 0) (c'.loadCx a 0) (Alike a r) := by
  obtain ⟨rfl, number, division, sqrt, random, rfl, hmath⟩ := h
  refine sim_same c.sim_loadPtr fun cx => sim_ite (fun _ => ?_) fun _ => ?_
  · exact sim_pure ⟨rfl, number, division, sqrt, random, rfl, hmath⟩
  · exact sim_pure ⟨rfl, number, division, sqrt, random, rfl, hmath⟩

theorem loadPhase_sim (h : Alike a r c c') :
    Sim r (c.loadPhase a soft 0) (c'.loadPhase a soft 0) (Alike a r) :=
  sim_ite (fun _ => loadCx_sim h) fun _ => sim_pure h

theorem aesPhase_sim (h : Alike a r c c') :
    Sim r (c.aesPhase a soft 0) (c'.aesPhase a soft 0) (Alike a r) := by
  refine sim_ite (fun _ => sim_pure h.aes) fun _ => ?_
  refine sim_ite (fun _ => ?_) fun _ => sim_pure h.aes
  exact sim_bind (loadCx_sim h) fun _ _ h => sim_pure h.aes

/-- The arithmetic of `VARIANT2_INTEGER_MATH` and of `VARIANT4_RANDOM_MATH`. -/
theorem Alike.math (height : UInt64) (h : Alike a r c c') :
    Alike a r
      (if base a = CN_2 then
        if isR a then c.variant4RandomMath a height else c.variant2IntegerMath
      else c)
      (if base a = CN_2 then
        if isR a then c'.variant4RandomMath a height else c'.variant2IntegerMath
      else c') := by
  have halike := h
  obtain ⟨rfl, number, division, sqrt, random, rfl, hmath, hrandom⟩ := h
  split_ifs with hbase hR
  · obtain ⟨rfl, rfl⟩ := hmath hbase
    obtain rfl := hrandom hR
    exact ⟨rfl, number, _, _, _, rfl, fun _ => ⟨rfl, rfl⟩, fun _ => rfl⟩
  · obtain ⟨rfl, rfl⟩ := hmath hbase
    exact ⟨rfl, number, _, _, random, rfl, fun _ => ⟨rfl, rfl⟩, fun h => absurd h hR⟩
  · exact halike

theorem mathPhase_sim (height : UInt64) (h : Alike a r c c') :
    Sim r (c.mathPhase a height) (c'.mathPhase a height) (Alike a r) := by
  have hmath := h.math height
  unfold mathPhase
  dsimp only
  revert hmath
  generalize (if base a = CN_2 then
      if isR a then c.variant4RandomMath a height else c.variant2IntegerMath else c) = d
  generalize (if base a = CN_2 then
      if isR a then c'.variant4RandomMath a height else c'.variant2IntegerMath else c') = d'
  rintro ⟨hr, number, division, sqrt, random, rfl, hmath⟩
  refine sim_ite (fun _ => sim_ite (fun _ => ?_) fun _ => ?_) fun _ => ?_
  · refine sim_same (variant2Shuffle_sim h _ _) fun cx => ?_
    exact sim_pure ⟨hr, number, division, sqrt, random, rfl, hmath⟩
  · refine sim_same (variant2Shuffle2_sim h _ _ _) fun product => ?_
    exact sim_pure ⟨hr, number, division, sqrt, random, rfl, hmath⟩
  · exact sim_pure ⟨hr, number, division, sqrt, random, rfl, hmath⟩

/-- Every phase of a round. -/
theorem wordPhases_sim (height : UInt64) :
    ∀ phase ∈ wordPhases a soft 0 height, ∀ r c c', Alike a r c c' →
      Sim r (phase c) (phase c') (Alike a r) := by
  intro phase hphase r c c' h
  simp only [wordPhases, List.mem_cons, List.not_mem_nil, or_false] at hphase
  rcases hphase with rfl | rfl | rfl | rfl
  · exact loadPhase_sim h
  · exact aesPhase_sim h
  · exact tweakPhase_sim h
  · refine sim_bind (followPhase_sim h) fun c c' h => ?_
    refine sim_bind (mathPhase_sim height h) fun c c' h => ?_
    refine sim_bind (storeWords_sim h) fun c c' h => ?_
    exact turnPhase_sim h

/-- The last phase of `stepPhases`. -/
theorem step4_sim (height : UInt64) (h : Alike a r c c') :
    Sim r
      (do
        let c ← c.mathPhase a height
        let c ← c.storeVector a 0
        c.turnPhase a 0)
      (do
        let c ← c'.mathPhase a height
        let c ← c.storeVector a 0
        c.turnPhase a 0)
      (Alike a r) := by
  refine sim_bind (mathPhase_sim height h) fun c c' h => ?_
  refine sim_bind (storeVector_sim h) fun c c' h => ?_
  exact turnPhase_sim h

end

end CnLane

/-! ## The passes over the scratchpad -/

section

variable {a : Algorithm} {l p i j : Nat}

/-- A word of the half of a round that starts at `p`. -/
theorem half_mem {k : Nat} (hp : l ≤ p) (hle : p + 64 ≤ l + memory a) (hk : k ≤ 56) :
    p + k ∈ pad a l :=
  Set.mem_Ico.mpr ⟨by omega, by omega⟩

theorem storeHalf_sim (hp : l ≤ p) (hle : p + 64 ≤ l + memory a) (v0 v1 v2 v3 : M128i) :
    Sim (pad a l) (storeHalf i p v0 v1 v2 v3) (storeHalf j p v0 v1 v2 v3) fun _ _ => True := by
  have hmem : ∀ k, k ≤ 56 → p + k ∈ pad a l := fun k hk => half_mem hp hle hk
  refine sim_seq (sim_store128 (hmem 0 (by omega)) (hmem 8 (by omega)) v0) fun _ _ => ?_
  refine sim_seq (sim_store128 (hmem 16 (by omega)) (hmem 24 (by omega)) v1) fun _ _ => ?_
  refine sim_seq (sim_store128 (hmem 32 (by omega)) (hmem 40 (by omega)) v2) fun _ _ => ?_
  exact sim_store128 (hmem 48 (by omega)) (hmem 56 (by omega)) v3

theorem loadHalf_sim (hp : l ≤ p) (hle : p + 64 ≤ l + memory a) :
    Sim (pad a l) (loadHalf i p) (loadHalf j p) Eq := by
  have hmem : ∀ k, k ≤ 56 → p + k ∈ pad a l := fun k hk => half_mem hp hle hk
  refine sim_same (sim_load128 (hmem 0 (by omega)) (hmem 8 (by omega))) fun v0 => ?_
  refine sim_same (sim_load128 (hmem 16 (by omega)) (hmem 24 (by omega))) fun v1 => ?_
  refine sim_same (sim_load128 (hmem 32 (by omega)) (hmem 40 (by omega))) fun v2 => ?_
  refine sim_same (sim_load128 (hmem 48 (by omega)) (hmem 56 (by omega))) fun v3 => ?_
  exact sim_pure rfl

end

section

variable [CnUnit] {a : Algorithm} {soft : Bool}

theorem cnExplodeScratchpad_sim (c : CnCtx) (number : Nat) :
    Sim (pad a c.memory) (cnExplodeScratchpad a soft 0 c)
      (cnExplodeScratchpad a soft 0 { c with number := number }) fun _ _ => True := by
  have hrounds := rounds_mul a
  have hstride : stride 0 = 64 := by decide
  refine sim_bind (Q := fun _ _ => True) ?_ fun _ _ _ => sim_pure trivial
  refine (sim_loop (I := fun i s s' => s = s' ∧ s.1 = c.memory + i * 128) (by simp) ?_).mono
    fun _ _ _ => trivial
  rintro i ⟨output, xin⟩ _ hi ⟨rfl, rfl⟩
  refine sim_seq (storeHalf_sim (by omega) (by omega) _ _ _ _) fun _ _ => ?_
  refine sim_seq (storeHalf_sim (by omega) (by omega) _ _ _ _) fun _ _ => ?_
  exact sim_pure ⟨rfl, by dsimp only; omega⟩

theorem implodePass_sim (c : CnCtx) (number : Nat) (keys : List M128i) (xout : Octet) :
    Sim (pad a c.memory) (implodePass a soft 0 c keys xout)
      (implodePass a soft 0 { c with number := number } keys xout) Eq := by
  have hrounds := rounds_mul a
  have hstride : stride 0 = 64 := by decide
  refine sim_bind
    (sim_loop (I := fun i s s' => s = s' ∧ s.1 = c.memory + i * 128) (by simp) ?_) ?_
  · rintro i ⟨input, xout⟩ _ hi ⟨rfl, rfl⟩
    refine sim_same (loadHalf_sim (by omega) (by omega)) fun v => ?_
    refine sim_same (loadHalf_sim (by omega) (by omega)) fun w => ?_
    exact sim_pure ⟨rfl, by dsimp only; omega⟩
  · rintro s _ ⟨rfl, -⟩
    exact sim_pure rfl

theorem cnImplodeScratchpad_sim (c : CnCtx) (number : Nat) :
    Sim (pad a c.memory) (cnImplodeScratchpad a soft 0 c)
      (cnImplodeScratchpad a soft 0 { c with number := number }) Eq := by
  refine sim_same (sim_same (implodePass_sim c number _ _) fun xout => ?_) fun xout => ?_
  · exact sim_ite (fun _ => implodePass_sim c number _ _) fun _ => sim_pure rfl
  · exact sim_pure rfl

/-- The passes of the source. -/
def Passes.source (a : Algorithm) (soft : Bool) : Passes a where
  explode := cnExplodeScratchpad a soft 0
  implode := cnImplodeScratchpad a soft 0
  explode_sim := cnExplodeScratchpad_sim
  implode_sim := cnImplodeScratchpad_sim

end

end XLArig
