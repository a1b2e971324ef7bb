import XLArig.CryptoNight.Within

/-!
# XLArig.CnHash

`crypto/cn/CnHash`: which function hashes for an algorithm, and whether that function keeps to
the memory that `CpuWorker` allocates for it.

Without the case for Zen3, every portable function does (`addFn_within`).  That case hashes
the heavy algorithms with blocks of 64 bytes that lie 512 bytes apart, in a scratchpad that
has no room for them (`spread_leaves`, `within_iff`).
-/

namespace XLArig

open Traced CnAlgo Algorithm

/-- `CnHash::AlgoVariant`. -/
inductive AlgoVariant
  | AV_AUTO
  | AV_SINGLE
  | AV_DOUBLE
  | AV_SINGLE_SOFT
  | AV_DOUBLE_SOFT
  | AV_TRIPLE
  | AV_QUAD
  | AV_PENTA
  | AV_TRIPLE_SOFT
  | AV_QUAD_SOFT
  | AV_PENTA_SOFT
  deriving DecidableEq, Repr

/-- The lanes of a variant. -/
def AlgoVariant.lanes : AlgoVariant → Nat
  | AV_AUTO => 0
  | AV_SINGLE | AV_SINGLE_SOFT => 1
  | AV_DOUBLE | AV_DOUBLE_SOFT => 2
  | AV_TRIPLE | AV_TRIPLE_SOFT => 3
  | AV_QUAD | AV_QUAD_SOFT => 4
  | AV_PENTA | AV_PENTA_SOFT => 5

/-- `ICpuInfo::Arch`. -/
inductive Arch
  | ARCH_UNKNOWN
  | ARCH_ZEN
  | ARCH_ZEN_PLUS
  | ARCH_ZEN2
  | ARCH_ZEN3
  deriving DecidableEq, Repr

/-- What is asked of `Cpu::info()`. -/
structure CpuInfo where
  arch : Arch
  assembly : Assembly

/-- `Cpu::assembly`. -/
def CpuInfo.assemblyOf (info : CpuInfo) (hint : Assembly) : Assembly :=
  if hint = .AUTO then info.assembly else hint

/-- `cn_hash_fun`: the functions by their names. -/
inductive CnHashFun
  | cryptonightSingleHash (a : Algorithm) (soft : Bool) (interleave : Nat)
  | cryptonightDoubleHash (a : Algorithm) (soft : Bool)
  | cryptonightTripleHash (a : Algorithm) (soft : Bool)
  | cryptonightQuadHash (a : Algorithm) (soft : Bool)
  | cryptonightPentaHash (a : Algorithm) (soft : Bool)
  | cryptonightSingleHashAsm (a : Algorithm) (assembly : Assembly)
  | cryptonightDoubleHashAsm (a : Algorithm) (assembly : Assembly)
  | argon2SingleHash (a : Algorithm)
  | astrobwtSingleHash (a : Algorithm)
  deriving DecidableEq, Repr

/-- A portable function of the family; the others are not modelled. -/
def CnHashFun.run [CnUnit] (input : List UInt8) (size : Nat) (height : UInt64)
    (ctx : List CnCtx) : CnHashFun → Option (Prog (List (List UInt8)))
  | cryptonightSingleHash a soft interleave =>
      some (XLArig.cryptonightSingleHash a soft interleave input size height ctx)
  | cryptonightDoubleHash a soft => some (XLArig.cryptonightDoubleHash a soft input size height ctx)
  | cryptonightTripleHash a soft | cryptonightQuadHash a soft | cryptonightPentaHash a soft =>
      some (cryptonightStepHash a soft input size height ctx)
  | _ => none

namespace CnHash

/-- `ADD_FN`. -/
def addFn (a : Algorithm) : AlgoVariant → Option CnHashFun
  | .AV_AUTO => none
  | .AV_SINGLE => some (.cryptonightSingleHash a false 0)
  | .AV_SINGLE_SOFT => some (.cryptonightSingleHash a true 0)
  | .AV_DOUBLE => some (.cryptonightDoubleHash a false)
  | .AV_DOUBLE_SOFT => some (.cryptonightDoubleHash a true)
  | .AV_TRIPLE => some (.cryptonightTripleHash a false)
  | .AV_TRIPLE_SOFT => some (.cryptonightTripleHash a true)
  | .AV_QUAD => some (.cryptonightQuadHash a false)
  | .AV_QUAD_SOFT => some (.cryptonightQuadHash a true)
  | .AV_PENTA => some (.cryptonightPentaHash a false)
  | .AV_PENTA_SOFT => some (.cryptonightPentaHash a true)

/-- `ADD_FN_ASM`. -/
def addFnAsm (a : Algorithm) (av : AlgoVariant) (assembly : Assembly) : Option CnHashFun :=
  if assembly = .INTEL ∨ assembly = .RYZEN ∨ assembly = .BULLDOZER then
    match av with
    | .AV_SINGLE => some (.cryptonightSingleHashAsm a assembly)
    | .AV_DOUBLE => some (.cryptonightDoubleHashAsm a assembly)
    | _ => none
  else none

section

variable [ft : Features]

/-- The algorithms that the constructor calls `ADD_FN` for. -/
def added : List Algorithm :=
  [CN_0, CN_1, CN_2, CN_R, CN_FAST, CN_HALF, CN_XAO, CN_RTO, CN_RWZ, CN_ZLS, CN_DOUBLE] ++
    (if ft.cnLite then [CN_LITE_0, CN_LITE_1] else []) ++
    (if ft.cnHeavy then [CN_HEAVY_0, CN_HEAVY_TUBE, CN_HEAVY_XHV] else []) ++
    (if ft.cnPico then [CN_PICO_0, CN_PICO_TLO] else []) ++ [CN_CCX]

/-- The algorithms that the constructor calls `ADD_FN_ASM` for. -/
def addedAsm : List Algorithm :=
  [CN_2, CN_HALF, CN_R, CN_RWZ, CN_ZLS, CN_DOUBLE] ++
    (if ft.cnPico then [CN_PICO_0, CN_PICO_TLO] else [])

/-- `m_map` as the constructor leaves it; `asm` is `XMRIG_FEATURE_ASM`. -/
def map (asm : Bool) (a : Algorithm) (av : AlgoVariant) (assembly : Assembly) :
    Option CnHashFun :=
  let single := av = .AV_SINGLE ∨ av = .AV_SINGLE_SOFT
  if assembly = .NONE then
    if a ∈ added then addFn a av
    else if ft.argon2 ∧ a ∈ [AR2_CHUKWA, AR2_CHUKWA_V2, AR2_WRKZ] ∧ single then
      some (.argon2SingleHash a)
    else if ft.astrobwt ∧ a = ASTROBWT_DERO ∧ single then some (.astrobwtSingleHash a)
    else none
  else if asm ∧ a ∈ addedAsm then addFnAsm a av assembly
  else none

/-- The function for Zen3. -/
def zen3 (info : CpuInfo) (a : Algorithm) (av : AlgoVariant) (assembly : Assembly) :
    Option CnHashFun :=
  if ft.cnHeavy ∧ av = .AV_SINGLE ∧ assembly ≠ .NONE ∧ info.arch = .ARCH_ZEN3 then
    match a with
    | CN_HEAVY_0 => some (.cryptonightSingleHash CN_HEAVY_0 false 3)
    | CN_HEAVY_TUBE => some (.cryptonightSingleHash CN_HEAVY_TUBE false 3)
    | CN_HEAVY_XHV => some (.cryptonightSingleHash CN_HEAVY_XHV false 3)
    | _ => none
  else none

/-- `CnHash::fn`. -/
def fn (asm : Bool) (info : CpuInfo) (a : Algorithm) (av : AlgoVariant) (assembly : Assembly) :
    Option CnHashFun :=
  if !a.isValid then none
  else
    match zen3 info a av assembly with
    | some f => some f
    | none =>
        match if asm then map asm a av (info.assemblyOf assembly) else none with
        | some f => some f
        | none => map asm a av .NONE

end

end CnHash

/-! ## The worker -/

/-- `CpuLaunchData::av`, for the intensities from 1 to 5. -/
def CpuLaunchData.av (d : CpuLaunchData) : AlgoVariant :=
  match d.intensity, d.hwAES with
  | 1, true => .AV_SINGLE
  | 2, true => .AV_DOUBLE
  | 1, false => .AV_SINGLE_SOFT
  | 2, false => .AV_DOUBLE_SOFT
  | 3, true => .AV_TRIPLE
  | 4, true => .AV_QUAD
  | 5, true => .AV_PENTA
  | 3, false => .AV_TRIPLE_SOFT
  | 4, false => .AV_QUAD_SOFT
  | 5, false => .AV_PENTA_SOFT
  | _, _ => .AV_AUTO

/-- A `CpuWorker<N>` runs a variant with `N` lanes, where `N` is the intensity. -/
theorem CpuLaunchData.lanes_av (d : CpuLaunchData) (hmin : 1 ≤ d.intensity)
    (hmax : d.intensity ≤ 5) : d.av.lanes = d.intensity := by
  obtain ⟨n, hn⟩ : ∃ n, d.intensity = n := ⟨_, rfl⟩
  have hcases : n = 1 ∨ n = 2 ∨ n = 3 ∨ n = 4 ∨ n = 5 := by omega
  unfold CpuLaunchData.av
  rw [hn]
  rcases hcases with rfl | rfl | rfl | rfl | rfl <;> cases d.hwAES <;> rfl

/-- `CpuWorker::allocateCnCtx` of a worker for `algorithm` with `n` lanes, whose block of
`algorithm.l3 * n` bytes starts at `scratchpad`. -/
def allocateCnCtx [Features] (algorithm : Algorithm) (scratchpad n : Nat) : List CnCtx :=
  CnCtx.create scratchpad algorithm.l3 n

namespace CnHash

/-! ## Scratchpads -/

section

variable [ft : Features] {a w : Algorithm} {info : CpuInfo} {asm : Bool} {av : AlgoVariant}
  {assembly : Assembly} {f : CnHashFun}

/-- An algorithm that the build leaves out is in no family of the four. -/
theorem isCN_ifBuilt {built : Bool} {f : Family} (hf : a.family = .ifBuilt built f)
    (h : a.isCN) : a.family = f := by
  cases built with
  | true => exact hf
  | false =>
      have hnone : a.family = .UNKNOWN := hf
      simp [isCN, hnone] at h

/-- The worker's size of a scratchpad is the one that the functions are compiled with. -/
theorem memory_eq_l3 (h : a.isCN) : CnAlgo.memory a = a.l3 := by
  cases a with
  | CN_LITE_0 | CN_LITE_1 => simp [l3, isCN_ifBuilt rfl h, CnAlgo.memory, CN_MEMORY]
  | CN_HEAVY_0 | CN_HEAVY_TUBE | CN_HEAVY_XHV =>
      simp [l3, isCN_ifBuilt rfl h, CnAlgo.memory, CN_MEMORY]
  | CN_PICO_0 | CN_PICO_TLO => simp [l3, isCN_ifBuilt rfl h, CnAlgo.memory, CN_MEMORY]
  | INVALID => cases h
  | RX_0 | RX_WOW | RX_ARQ | RX_SFX | RX_KEVA | RX_XLA | AR2_CHUKWA | AR2_CHUKWA_V2 | AR2_WRKZ
  | ASTROBWT_DERO | KAWPOW_RVN => simp [isCN, isCN_ifBuilt rfl h] at h
  | _ => rfl

theorem create_placed (h : a.isCN) (hl3 : w.l3 = a.l3) (scratchpad n : Nat) :
    ∀ c ∈ allocateCnCtx w scratchpad n, CnCtx.Placed a scratchpad n c := by
  intro c hc
  obtain ⟨i, hi, rfl⟩ := List.mem_map.mp hc
  refine ⟨List.mem_range.mp hi, ?_⟩
  show scratchpad + i * w.l3 = scratchpad + i * CnAlgo.memory a
  rw [hl3, memory_eq_l3 h]

/-! ## The choice -/

/-- The algorithm, the processor and the setting for which the blocks are spread. -/
def Spread (info : CpuInfo) (a : Algorithm) (av : AlgoVariant) (assembly : Assembly) : Prop :=
  av = .AV_SINGLE ∧ assembly ≠ .NONE ∧ info.arch = .ARCH_ZEN3 ∧ a.family = .CN_HEAVY

theorem family_heavy_iff : a.family = .CN_HEAVY ↔
    ft.cnHeavy = true ∧ (a = CN_HEAVY_0 ∨ a = CN_HEAVY_TUBE ∨ a = CN_HEAVY_XHV) := by
  cases a with
  | CN_HEAVY_0 | CN_HEAVY_TUBE | CN_HEAVY_XHV =>
      cases hft : ft.cnHeavy <;> simp [family, Family.ifBuilt, hft]
  | _ => simp [family, Family.ifBuilt] <;> split <;> simp

theorem zen3_of_spread (h : Spread info a av assembly) :
    zen3 info a av assembly = some (.cryptonightSingleHash a false 3) := by
  obtain ⟨hav, hassembly, harch, hfamily⟩ := h
  obtain ⟨hbuilt, hheavy⟩ := family_heavy_iff.mp hfamily
  unfold zen3
  rw [if_pos ⟨hbuilt, hav, hassembly, harch⟩]
  rcases hheavy with rfl | rfl | rfl <;> rfl

theorem zen3_of_not_spread (h : ¬ Spread info a av assembly) :
    zen3 info a av assembly = none := by
  unfold zen3
  split_ifs with hzen
  · obtain ⟨hbuilt, hav, hassembly, harch⟩ := hzen
    have hother : ¬ (a = CN_HEAVY_0 ∨ a = CN_HEAVY_TUBE ∨ a = CN_HEAVY_XHV) := fun hheavy =>
      h ⟨hav, hassembly, harch, family_heavy_iff.mpr ⟨hbuilt, hheavy⟩⟩
    cases a <;> simp_all
  · rfl

theorem fn_eq_spread (hspread : Spread info a av assembly)
    (hfn : fn asm info a av assembly = some f) : f = .cryptonightSingleHash a false 3 := by
  unfold fn at hfn
  rw [zen3_of_spread hspread] at hfn
  dsimp only at hfn
  split_ifs at hfn
  all_goals exact (Option.some.inj hfn).symm

section Run

variable [CnUnit] {input : List UInt8} {size scratchpad : Nat} {height : UInt64}
  {ctx : List CnCtx} {p : Prog (List (List UInt8))}

/-- A portable function in the table was put there by `ADD_FN`. -/
theorem map_eq_addFn (hmap : map asm a av assembly = some f)
    (hrun : f.run input size height ctx = some p) : addFn a av = some f := by
  unfold map at hmap
  dsimp only at hmap
  split_ifs at hmap
  · exact hmap
  · obtain rfl := Option.some.inj hmap
    cases hrun
  · obtain rfl := Option.some.inj hmap
    cases hrun
  · unfold addFnAsm at hmap
    split_ifs at hmap
    cases av <;> simp only [reduceCtorEq] at hmap <;> obtain rfl := Option.some.inj hmap <;>
      cases hrun

theorem fn_eq_addFn (hspread : ¬ Spread info a av assembly)
    (hfn : fn asm info a av assembly = some f) (hrun : f.run input size height ctx = some p) :
    addFn a av = some f := by
  unfold fn at hfn
  rw [zen3_of_not_spread hspread] at hfn
  dsimp only at hfn
  split_ifs at hfn with hvalid hasm
  · cases hmap : map asm a av (info.assemblyOf assembly) with
    | some g =>
        rw [hmap] at hfn
        obtain rfl := Option.some.inj hfn
        exact map_eq_addFn hmap hrun
    | none =>
        rw [hmap] at hfn
        exact map_eq_addFn hfn hrun
  · exact map_eq_addFn hfn hrun

omit ft in
/-- What `ADD_FN` adds keeps to the parts of the lanes. -/
theorem addFn_within {start n : Nat} (hadd : addFn a av = some f)
    (hrun : f.run input size height ctx = some p) (hctx : ∀ c ∈ ctx, CnCtx.Placed a start n c) :
    CnLane.Inside a start n p fun _ => True := by
  have hword : ∀ soft, CnLane.Inside a start n
      (cryptonightHash a soft 0 input size ctx (wordPhases a soft 0 height)) fun _ => True :=
    fun _ => cryptonightHash_within hctx (CnLane.wordPhases_within height)
  have hstep : ∀ soft, CnLane.Inside a start n
      (cryptonightHash a soft 0 input size ctx (stepPhases a soft height)) fun _ => True :=
    fun _ => cryptonightHash_within hctx (CnLane.stepPhases_within height)
  cases av with
  | AV_AUTO => cases hadd
  | AV_SINGLE | AV_SINGLE_SOFT | AV_DOUBLE | AV_DOUBLE_SOFT =>
      obtain rfl := Option.some.inj hadd
      obtain rfl := Option.some.inj hrun
      exact hword _
  | _ =>
      obtain rfl := Option.some.inj hadd
      obtain rfl := Option.some.inj hrun
      exact hstep _

/-- The round 4096 stores behind a scratchpad of 4 MiB. -/
theorem spread_leaves (hspread : Spread info a av assembly)
    (hsize : ¬ (a = CN_HEAVY_TUBE ∧ size < 43)) (hfn : fn asm info a av assembly = some f)
    (hrun : f.run input size height (allocateCnCtx w scratchpad av.lanes) = some p)
    (σ : Words) : ⟨0, scratchpad + 0x400000, 16⟩ ∈ p.noted σ := by
  obtain rfl := fn_eq_spread hspread hfn
  obtain rfl := Option.some.inj hrun
  obtain ⟨hav, -, -, hfamily⟩ := hspread
  obtain ⟨-, hheavy⟩ := family_heavy_iff.mp hfamily
  have hrounds : 4096 < rounds a := by rcases hheavy with rfl | rfl | rfl <;> decide
  have hrefused : ¬ (CnAlgo.base a = CN_1 ∧ size < 43) := by
    rcases hheavy with rfl | rfl | rfl
    · simp [CnAlgo.base]
    · simpa [CnAlgo.base] using hsize
    · simp [CnAlgo.base]
  have hstride : 4096 * (2 * stride 3) = 0x400000 := by decide
  have hctx : allocateCnCtx w scratchpad av.lanes = [⟨0, fun _ => 0, scratchpad⟩] := by
    rw [hav]
    simp [allocateCnCtx, CnCtx.create, AlgoVariant.lanes]
  rw [hctx]
  have htouch : Touches ⟨0, scratchpad + 4096 * (2 * stride 3), 16⟩
      (cryptonightSingleHash a false 3 input size height [⟨0, fun _ => 0, scratchpad⟩]) :=
    cryptonightHash_touches hrefused hrounds
  rw [hstride] at htouch
  exact htouch σ

end Run

end

/-- What the function for `a` reads and writes, on the contexts of a worker for `w`, lies in
the parts of its lanes, unless the function is the one for Zen3 and does not refuse the blob. -/
theorem within_iff [Features] [CnUnit] {a w : Algorithm} {info : CpuInfo} {asm : Bool}
    {av : AlgoVariant} {assembly : Assembly} {f : CnHashFun} {input : List UInt8}
    {size scratchpad : Nat} {height : UInt64} {p : Prog (List (List UInt8))} (ha : a.isCN)
    (hl3 : w.l3 = a.l3) (hfn : fn asm info a av assembly = some f)
    (hrun : f.run input size height (allocateCnCtx w scratchpad av.lanes) = some p) (σ : Words) :
    (∀ t ∈ p.noted σ, Span.Within scratchpad a.l3 av.lanes t) ↔
      ¬ (Spread info a av assembly ∧ ¬ (a = CN_HEAVY_TUBE ∧ size < 43)) := by
  have hmemory := memory_eq_l3 ha
  constructor
  · rintro hwithin ⟨hspread, hsize⟩
    have hlast := (hwithin _ (spread_leaves hspread hsize hfn hrun σ)).2.2
    have hl3 : a.l3 = 0x400000 := by
      unfold l3
      rw [hspread.2.2.2]
    rw [hl3] at hlast
    simp at hlast
  · intro hnot
    by_cases hspread : Spread info a av assembly
    · have hsize : a = CN_HEAVY_TUBE ∧ size < 43 := by
        by_contra h
        exact hnot ⟨hspread, h⟩
      obtain rfl := fn_eq_spread hspread hfn
      obtain rfl := Option.some.inj hrun
      obtain ⟨rfl, hshort⟩ := hsize
      have hrefused : CnAlgo.base CN_HEAVY_TUBE = CN_1 ∧ size < 43 := ⟨rfl, hshort⟩
      simp [cryptonightSingleHash, cryptonightHash, hrefused]
    · have hadd := fn_eq_addFn hspread hfn hrun
      have hplaced := create_placed ha hl3 scratchpad av.lanes
      rw [← hmemory]
      exact (addFn_within hadd hrun hplaced σ).2

/-- Registers that stay zero: the runs on concrete inputs use them. -/
abbrev zeroUnit : CnUnit where
  keccak _ := fun _ => 0
  keccakf h := h
  extraHash _ := List.replicate 32 0
  aesGenkey _ _ _ := []
  aesenc _ x _ := x
  aesRoundTweakDiv x _ := x
  cryptonightConcealTweak x v := (x, v)
  intSqrtV2 _ := 0
  v4RandomMath _ _ r := r

/-- A worker for `cn/0` hashes two blobs by `cn/1`. -/
theorem within_iff_double :
    (∀ t ∈ (@cryptonightDoubleHash zeroUnit CN_1 false (List.replicate 152 0) 76 0
        (allocateCnCtx CN_0 4096 2)).noted fun _ => 0, Span.Within 4096 CN_1.l3 2 t) ↔
      ¬ (Spread ⟨.ARCH_ZEN3, .RYZEN⟩ CN_1 .AV_DOUBLE .AUTO ∧
        ¬ (CN_1 = CN_HEAVY_TUBE ∧ 76 < 43)) :=
  @within_iff _ zeroUnit CN_1 CN_0 ⟨.ARCH_ZEN3, .RYZEN⟩ true .AV_DOUBLE .AUTO
    (.cryptonightDoubleHash CN_1 false) (List.replicate 152 0) 76 4096 0 _ rfl rfl rfl rfl
    fun _ => 0

/-- The build with the heavy algorithms. -/
abbrev heavyBuild : Features := ⟨false, true, false, true, false, false, false⟩

/-- On Zen3, a worker for `cn-heavy/0` writes behind its block of 4 MiB. -/
theorem leaves_block :
    @fn heavyBuild true ⟨.ARCH_ZEN3, .RYZEN⟩ CN_HEAVY_0 .AV_SINGLE .AUTO =
        some (.cryptonightSingleHash CN_HEAVY_0 false 3) ∧
      ∀ σ : Words, ∃ t ∈ (@cryptonightSingleHash zeroUnit CN_HEAVY_0 false 3
          (List.replicate 76 0) 76 0 (@allocateCnCtx heavyBuild CN_HEAVY_0 4096 1)).noted σ,
        t.number = 0 ∧ ¬ Span.Within 4096 (@l3 heavyBuild CN_HEAVY_0) 1 t := by
  have hfn : @fn heavyBuild true ⟨.ARCH_ZEN3, .RYZEN⟩ CN_HEAVY_0 .AV_SINGLE .AUTO =
      some (.cryptonightSingleHash CN_HEAVY_0 false 3) := rfl
  have hspread : @Spread heavyBuild ⟨.ARCH_ZEN3, .RYZEN⟩ CN_HEAVY_0 .AV_SINGLE .AUTO :=
    ⟨rfl, by decide, rfl, rfl⟩
  refine ⟨hfn, fun σ => ⟨⟨0, 4096 + 0x400000, 16⟩, ?_, rfl, ?_⟩⟩
  · exact @spread_leaves heavyBuild CN_HEAVY_0 CN_HEAVY_0 ⟨.ARCH_ZEN3, .RYZEN⟩ true .AV_SINGLE .AUTO
      _ zeroUnit (List.replicate 76 0) 76 4096 0 _ hspread (by decide) hfn rfl σ
  · rintro ⟨-, -, hlast⟩
    have hl3 : @l3 heavyBuild CN_HEAVY_0 = 0x400000 := rfl
    rw [hl3] at hlast
    simp at hlast

end CnHash

end XLArig
