import XLArig.CnHash
import XLArig.CryptoNight.Together

/-!
# XLArig.CryptoNight.MultiHash

The hashes of several inputs are the single ones: whatever the number of lanes, each of them is
filled, goes through its rounds and is read back as it is alone (`beside_hash`), so that the
function for several inputs writes what the single hash writes (`multiHash_eq_single`).
-/

namespace XLArig

open Traced CnAlgo Algorithm

namespace Lanes

/-! ## A lane alone -/

/-- What the single hash of a lane starts from, and the place of the lane. -/
structure Solo where
  number : Nat
  input : List UInt8
  ctx : CnCtx

/-- Lane `c`, for the single hash. -/
def solo (input : List UInt8) (size : Nat) (c : CnCtx) : Solo :=
  ⟨c.number, input.drop (c.number * size), { c with number := 0 }⟩

section

variable [CnUnit]

/-- The rounds of the single hash. -/
def Solo.rounds (a : Algorithm) (soft : Bool) (height : UInt64) (n size : Nat) (p : Solo) :
    Prog CnLane :=
  loop (fun _ => singleRound a soft height) n (CnLane.init a p.input size p.ctx)

variable {a : Algorithm} (soft : Bool) (height : UInt64) (passes : Passes a) (n : Nat)
  (input : List UInt8) (size : Nat)

def Solo.start (p : Solo) : Prog Solo := do
  let c ← Lanes.start p.input size passes p.ctx
  pure { p with ctx := c }

def Solo.finish (p : Solo) : Prog (Nat × List UInt8) := do
  let h ← Lanes.finish passes p.ctx
  pure (p.number, h)

/-- The single hash of a lane, with the place of the lane. -/
def Solo.hash (p : Solo) : Prog (Nat × List UInt8) := do
  let p ← p.start passes size
  let _ ← p.rounds a soft height n size
  p.finish passes

/-- What is written for a lane of several. -/
def written (c : CnCtx) : Prog (Nat × List UInt8) := do
  let h ← Lanes.finish passes c
  pure (32 * c.number, h)

/-- Lane `c` of several, and `p` alone. -/
def Paired (a : Algorithm) (r : Set Nat) (c : CnCtx) (p : Solo) : Prop :=
  r = pad a c.memory ∧ p = solo input size c

end

section

variable [CnUnit] {a : Algorithm} {soft : Bool} {passes : Passes a} {input : List UInt8}
  {size : Nat} {r : Set Nat} {c : CnCtx} {p : Solo}

/-- `keccak` gets the same bytes. -/
theorem keccakLane_solo (c : CnCtx) :
    keccakLane (input.drop (c.number * size)) size { c with number := 0 } =
      { keccakLane input size c with number := 0 } := by
  have hbytes : (input.drop (c.number * size)).drop (size * 0) = input.drop (size * c.number) := by
    rw [Nat.mul_zero, List.drop_zero, Nat.mul_comm]
  simp only [keccakLane, hbytes]

variable (passes) in
theorem start_sim (h : Paired input size a r c p) :
    Sim r (start input size passes c) (p.start passes size) (Paired input size a r) := by
  obtain ⟨rfl, rfl⟩ := h
  unfold Solo.start start
  dsimp only [solo]
  rw [keccakLane_solo]
  intro m m' hm
  obtain ⟨-, hstore, hframe⟩ := passes.explode_sim (keccakLane input size c) 0 m m' hm
  exact ⟨⟨rfl, rfl⟩, hstore, hframe⟩

omit [CnUnit] in
/-- The tweak of `CN_1` is in the same bytes. -/
theorem inputWord_drop (k i : Nat) : inputWord (input.drop k) i = inputWord input (k + i) := by
  rw [inputWord, inputWord, List.drop_drop]

omit [CnUnit] in
theorem init_alike (h : Paired input size a r c p) :
    CnLane.Alike a r (CnLane.init a input size c) (CnLane.init a p.input size p.ctx) := by
  obtain ⟨rfl, rfl⟩ := h
  refine ⟨rfl, 0, c.state 12, c.state 13, _, ?_, fun _ => ⟨rfl, rfl⟩, fun _ => rfl⟩
  have hword : inputWord (input.drop (c.number * size)) (35 + 0 * size) =
      inputWord input (35 + c.number * size) := by
    rw [inputWord_drop, Nat.zero_mul, Nat.add_zero, Nat.add_comm]
  simp only [CnLane.init, solo, hword]

omit [CnUnit] in
theorem constInit_alike (h : Paired input size a r c p) :
    StepLane.Alike a r (StepLane.constInit a input size c)
      (CnLane.init a p.input size p.ctx) := by
  obtain ⟨rfl, rfl⟩ := h
  have hword : inputWord (input.drop (c.number * size)) (35 + 0 * size) =
      inputWord input (c.number * size + 35) := by
    rw [inputWord_drop, Nat.zero_mul, Nat.add_zero]
  have hmc : (StepLane.constInit a input size c).mc =
      ⟨0, if base a = CN_1 then inputWord input (c.number * size + 35) ^^^ c.state 24 else 0⟩ := by
    unfold StepLane.constInit
    dsimp only
    split_ifs
    · rfl
    · rfl
  refine ⟨congrArg M128i.lo hmc, rfl, 0, c.state 12, c.state 13,
    (CnLane.init a input size c).r, ?_, fun hbase => ?_, fun hR => ?_⟩
  · have htweak := congrArg M128i.hi hmc
    simp only [CnLane.init, solo, StepLane.regs, hword, htweak]
    rfl
  · simp only [StepLane.regs, StepLane.constInit, if_pos hbase, and_self]
  · simp only [StepLane.regs, StepLane.constInit, if_pos hR]
    rfl

variable (passes) in
theorem finish_sim (h : Paired input size a r c p) :
    Sim r (written passes c) (p.finish passes) (fun o q => o = (32 * q.1, q.2)) := by
  obtain ⟨rfl, rfl⟩ := h
  intro m m' hm
  obtain ⟨hval, hstore, hframe⟩ := passes.implode_sim c 0 m m' hm
  refine ⟨?_, hstore, hframe⟩
  have hhash := congrArg (fun h => (32 * c.number, CnUnit.extraHash (CnUnit.keccakf h))) hval
  exact hhash

end

/-! ## All lanes -/

section

variable [CnUnit] {a : Algorithm} {soft : Bool} {height : UInt64} {passes : Passes a} {n : Nat}
  {input : List UInt8} {size : Nat} {m : Words} {ctx : List CnCtx}
  {ls : List (Lone Nat UInt64 Solo)}

/-- The lanes begin, go through their rounds and are read back; `lanes` are those in `k`. -/
theorem beside_hash {κ μ : Type} (lanes : κ → List CnCtx) {begin : κ → Prog κ}
    (rounds : κ → Prog μ) {k : κ}
    (hbegin : Turns lanes (Paired input size a) (Paired input size a) begin
      (Solo.start passes size))
    (hrounds : ∀ m k ls, Beside (Paired input size a) m (lanes k) ls →
      ∀ l ∈ ls.map (Lone.next (Solo.rounds a soft height n size)),
        Set.EqOn (rounds k m).2.1 l.store l.region)
    (h : Beside (Paired input size a) m (lanes k) ls) :
    let hash : Prog (List (Nat × List UInt8)) := do
      let k ← begin k
      let _ ← rounds k
      each (written passes) (lanes k)
    Beside (fun _ o q => o = (32 * q.1, q.2)) (hash m).2.1 (hash m).1
      (ls.map (Lone.next (Solo.hash soft height passes n size))) := by
  have hstart := hbegin m k ls h
  have hkeep := hstart.keep (hrounds _ _ _ hstart)
  have hend := beside_each (R := Paired input size a)
    (S := fun _ o (q : Nat × List UInt8) => o = (32 * q.1, q.2))
    (fun _ _ _ => finish_sim passes) hkeep
  rw [List.map_map, List.map_map] at hend
  exact hend

theorem stepRounds_eqOn (h : Beside (Paired input size a) m ctx ls) :
    ∀ l ∈ ls.map (Lone.next (Solo.rounds a soft height n size)),
      Set.EqOn (loop (fun _ => StepLane.cnRound a soft height) n
        (ctx.map (StepLane.constInit a input size)) m).2.1 l.store l.region := by
  have hinit := beside_map (τ := Span) (R := Paired input size a) (S := StepLane.Alike a)
    (fun _ _ _ => constInit_alike) h
  have hloop := turns_loop (StepLane.cnRound_turns soft height) n _ _ _ hinit
  rw [List.map_map] at hloop
  exact hloop.eqOn

theorem doubleRounds_eqOn {c0 c1 : CnCtx} (h : Beside (Paired input size a) m [c0, c1] ls) :
    ∀ l ∈ ls.map (Lone.next (Solo.rounds a soft height n size)),
      Set.EqOn (loop (fun _ => doubleRound a soft height) n
        (CnLane.init a input size c0, CnLane.init a input size c1) m).2.1 l.store l.region := by
  have hinit := beside_map (τ := Span) (R := Paired input size a) (S := CnLane.Alike a)
    (fun _ _ _ => init_alike) h
  have hloop := turns_loop (doubleRound_turns soft height) n m
    (CnLane.init a input size c0, CnLane.init a input size c1) _ hinit
  rw [List.map_map] at hloop
  exact hloop.eqOn

theorem stepHash_beside (hsize : ¬ (base a = CN_1 ∧ size < 43))
    (h : Beside (Paired input size a) m ctx ls) :
    Beside (fun _ o q => o = (32 * q.1, q.2))
      (stepHash a soft height passes n input size ctx m).2.1
      (stepHash a soft height passes n input size ctx m).1
      (ls.map (Lone.next (Solo.hash soft height passes n size))) := by
  unfold stepHash
  rw [if_neg hsize]
  exact beside_hash id
    (fun ctx => loop (fun _ => StepLane.cnRound a soft height) n
      (ctx.map (StepLane.constInit a input size))) (turns_each fun _ _ _ => start_sim passes)
    (fun _ _ _ => stepRounds_eqOn) h

theorem doubleHash_beside {c0 c1 : CnCtx} (hsize : ¬ (base a = CN_1 ∧ size < 43))
    (h0 : c0.number = 0) (h1 : c1.number = 1)
    (h : Beside (Paired input size a) m [c0, c1] ls) :
    Beside (fun _ o q => o = (32 * q.1, q.2))
      (cryptonightDoubleHash a soft height passes n input size c0 c1 m).2.1
      (cryptonightDoubleHash a soft height passes n input size c0 c1 m).1
      (ls.map (Lone.next (Solo.hash soft height passes n size))) := by
  have hhash := beside_hash (fun p : CnCtx × CnCtx => [p.1, p.2]) (k := (c0, c1))
    (fun p => loop (fun _ => doubleRound a soft height) n
      (CnLane.init a input size p.1, CnLane.init a input size p.2))
    (turns_both fun _ _ _ => start_sim passes) (fun _ _ _ => doubleRounds_eqOn) h
  obtain ⟨_, state0, memory0⟩ := c0
  obtain ⟨_, state1, memory1⟩ := c1
  subst h0 h1
  unfold cryptonightDoubleHash
  rw [if_neg hsize]
  have hinput : (input.drop size).take size = (input.drop (size * 1)).take size := by
    rw [Nat.mul_one]
  rw [hinput]
  exact hhash

/-- Three contexts and more take the macros. -/
theorem multiHash_eq_step (hcount : 3 ≤ ctx.length ∧ ctx.length ≤ 5) :
    multiHash a soft height passes n input size ctx =
      stepHash a soft height passes n input size ctx := by
  match ctx, hcount with
  | [_, _, _], _ => rfl
  | [_, _, _, _], _ => rfl
  | [_, _, _, _, _], _ => rfl

omit [CnUnit] in
/-- Two contexts are those of the lanes 0 and 1. -/
theorem eq_pair (hthree : ¬ 3 ≤ ctx.length) (hcount : 2 ≤ ctx.length)
    (hnumber : ctx.map CnCtx.number = List.range ctx.length) :
    ∃ c0 c1 : CnCtx, ctx = [c0, c1] ∧ c0.number = 0 ∧ c1.number = 1 := by
  obtain ⟨c0, c1, rfl⟩ := List.length_eq_two.mp (by omega : ctx.length = 2)
  have hnumbers : [c0.number, c1.number] = [0, 1] := hnumber
  injection hnumbers with h0 hrest
  injection hrest with h1 _
  exact ⟨c0, c1, rfl, h0, h1⟩

/-- A blob that is too short for the tweak. -/
theorem multiHash_short (hsize : base a = CN_1 ∧ size < 43)
    (hcount : 2 ≤ ctx.length ∧ ctx.length ≤ 5)
    (hnumber : ctx.map CnCtx.number = List.range ctx.length) :
    multiHash a soft height passes n input size ctx =
      pure (ctx.map fun c => (32 * c.number, List.replicate 32 0)) := by
  by_cases hthree : 3 ≤ ctx.length
  · rw [multiHash_eq_step ⟨hthree, hcount.2⟩, stepHash, if_pos hsize]
  · obtain ⟨c0, c1, rfl, h0, h1⟩ := eq_pair hthree hcount.1 hnumber
    rw [multiHash, cryptonightDoubleHash, if_pos hsize, List.map_cons, List.map_cons,
      List.map_nil, h0, h1]

variable (soft height passes n) in
theorem multiHash_beside (hsize : ¬ (base a = CN_1 ∧ size < 43))
    (hcount : 2 ≤ ctx.length ∧ ctx.length ≤ 5)
    (hnumber : ctx.map CnCtx.number = List.range ctx.length)
    (h : Beside (Paired input size a) m ctx ls) :
    Beside (fun _ o q => o = (32 * q.1, q.2))
      (multiHash a soft height passes n input size ctx m).2.1
      (multiHash a soft height passes n input size ctx m).1
      (ls.map (Lone.next (Solo.hash soft height passes n size))) := by
  by_cases hthree : 3 ≤ ctx.length
  · rw [multiHash_eq_step ⟨hthree, hcount.2⟩]
    exact stepHash_beside hsize h
  · obtain ⟨c0, c1, rfl, h0, h1⟩ := eq_pair hthree hcount.1 hnumber
    exact doubleHash_beside hsize h0 h1 h

/-- Where each lane starts alone, on the same memory. -/
def alone (a : Algorithm) (input : List UInt8) (size : Nat) (m : Words) (c : CnCtx) :
    Lone Nat UInt64 Solo :=
  ⟨pad a c.memory, solo input size c, m⟩

omit [CnUnit] in
variable (input size m) in
theorem beside_alone
    (hdisjoint : ctx.Pairwise fun c d => Disjoint (pad a c.memory) (pad a d.memory)) :
    Beside (Paired input size a) m ctx (ctx.map (alone a input size m)) := by
  refine ⟨List.pairwise_map.mpr hdisjoint, ?_⟩
  rw [List.forall₂_map_right_iff]
  exact List.forall₂_same.mpr fun c _ => ⟨⟨rfl, rfl⟩, Set.eqOn_refl m _⟩

end

/-- **Every lane is hashed as it is alone.**  The hash of two to five inputs writes at
`output + 32 * i` what the single hash writes for the input at `input + i * size`, and leaves the
same bytes in the scratchpad of the lane. -/
theorem multiHash_eq_single [CnUnit] (a : Algorithm) (soft : Bool) (height : UInt64)
    (passes : Passes a) (n : Nat) (input : List UInt8) (size : Nat) (ctx : List CnCtx)
    (hcount : 2 ≤ ctx.length ∧ ctx.length ≤ 5)
    (hnumber : ctx.map CnCtx.number = List.range ctx.length)
    (hdisjoint : ctx.Pairwise fun c d => Disjoint (pad a c.memory) (pad a d.memory))
    (m : Words) (i : Nat) (c : CnCtx) (hc : ctx[i]? = some c) :
    let multi := multiHash a soft height passes n input size ctx m
    let single := cryptonightSingleHash a soft height passes n (input.drop (i * size)) size
      { c with number := 0 } m
    multi.1[i]? = some (32 * i, single.1) ∧ Set.EqOn multi.2.1 single.2.1 (pad a c.memory) := by
  have hi : c.number = i := by
    have hplace : (ctx.map CnCtx.number)[i]? = some c.number := by rw [List.getElem?_map, hc]; rfl
    rw [hnumber] at hplace
    obtain ⟨hlt, hget⟩ := List.getElem?_eq_some_iff.mp hplace
    rwa [List.getElem_range, eq_comm] at hget
  subst hi
  by_cases hsize : base a = CN_1 ∧ size < 43
  · rw [multiHash_short hsize hcount hnumber, cryptonightSingleHash, if_pos hsize]
    refine ⟨?_, Set.eqOn_refl m _⟩
    have hget : (ctx.map fun c => (32 * c.number, List.replicate 32 (0 : UInt8)))[c.number]? =
        some (32 * c.number, List.replicate 32 0) := by
      rw [List.getElem?_map, hc]
      rfl
    exact hget
  · have hlanes := multiHash_beside soft height passes n hsize hcount hnumber
      (beside_alone input size m hdisjoint)
    have hlane : ((ctx.map (alone a input size m)).map
        (Lone.next (Solo.hash soft height passes n size)))[c.number]? =
        some ((alone a input size m c).next (Solo.hash soft height passes n size)) := by
      rw [List.getElem?_map, List.getElem?_map, hc]
      rfl
    obtain ⟨o, hget, ho, hstore⟩ := hlanes.get hlane
    rw [cryptonightSingleHash, if_neg hsize]
    exact ⟨hget.trans (congrArg some ho), hstore⟩

/-- The contexts of two scratchpads, one behind the other. -/
abbrev twoCtx : List CnCtx :=
  [⟨0, fun _ => 0, 4096⟩, ⟨1, fun _ => 0, 0x201000⟩]

theorem twoCtx_disjoint :
    twoCtx.Pairwise fun c d => Disjoint (pad CN_1 c.memory) (pad CN_1 d.memory) := by
  refine List.pairwise_pair.mpr ?_
  exact Set.Ico_disjoint_Ico.mpr (by decide)

/-- The second of two blobs, by `cn/1`. -/
theorem multiHash_eq_single_second :
    (@multiHash CnHash.zeroUnit CN_1 false 0 (@Passes.source CnHash.zeroUnit CN_1 false) (iterations CN_1)
        (List.replicate 152 7) 76 twoCtx fun _ => 0).1[1]? =
      some (32 * 1, (@cryptonightSingleHash CnHash.zeroUnit CN_1 false 0
        (@Passes.source CnHash.zeroUnit CN_1 false) (iterations CN_1)
        ((List.replicate 152 7).drop (1 * 76)) 76 ⟨0, fun _ => 0, 0x201000⟩ fun _ => 0).1) ∧
    Set.EqOn
      (@multiHash CnHash.zeroUnit CN_1 false 0 (@Passes.source CnHash.zeroUnit CN_1 false) (iterations CN_1)
        (List.replicate 152 7) 76 twoCtx fun _ => 0).2.1
      (@cryptonightSingleHash CnHash.zeroUnit CN_1 false 0 (@Passes.source CnHash.zeroUnit CN_1 false)
        (iterations CN_1) ((List.replicate 152 7).drop (1 * 76)) 76
        ⟨0, fun _ => 0, 0x201000⟩ fun _ => 0).2.1
      (pad CN_1 0x201000) := by
  have hcount : 2 ≤ twoCtx.length ∧ twoCtx.length ≤ 5 := ⟨by decide, by decide⟩
  have hnumber : twoCtx.map CnCtx.number = List.range twoCtx.length := by decide
  have hc : twoCtx[1]? = some ⟨1, fun _ => 0, 0x201000⟩ := rfl
  have h := @multiHash_eq_single CnHash.zeroUnit CN_1 false 0 (@Passes.source CnHash.zeroUnit CN_1 false)
    (iterations CN_1) (List.replicate 152 7) 76 twoCtx hcount hnumber
    twoCtx_disjoint (fun _ => 0) 1 ⟨1, fun _ => 0, 0x201000⟩ hc
  dsimp only at h
  exact h

/-! ## The portable single hash -/

/-- With the passes of the source and the iterations of the algorithm, the hash of a lane is the
single hash of the portable code. -/
theorem single_source [CnUnit] (a : Algorithm) (soft : Bool) (height : UInt64)
    (input : List UInt8) (size : Nat) (c : CnCtx) :
    Follows (fun hs h => hs = [h])
      (XLArig.cryptonightSingleHash a soft 0 input size height [c])
      (cryptonightSingleHash a soft height (Passes.source a soft) (iterations a) input size c) := by
  unfold XLArig.cryptonightSingleHash cryptonightHash cryptonightSingleHash
  by_cases hsize : base a = CN_1 ∧ size < 43
  · rw [if_pos hsize, if_pos hsize]
    exact fun _ => ⟨rfl, rfl⟩
  · rw [if_neg hsize, if_neg hsize]
    have hstart : Follows (fun _ d => d = keccakLane input size c)
        (each (cnExplodeScratchpad a soft 0) [keccakLane input size c])
        (start input size (Passes.source a soft) c) := fun _ => ⟨rfl, rfl⟩
    refine follows_bind hstart fun _ d hd => ?_
    subst hd
    have hrounds := follows_loop (Q := fun lanes lane => lanes = [lane])
      (f := inTurn ((wordPhases a soft 0 height).map each)) (g := singleRound a soft height)
      (a := [CnLane.init a input size (keccakLane input size c)]) rfl
      (fun lanes lane hlanes => by
        subst hlanes
        exact follows_each_singleton _ lane) (iterations a)
    exact follows_bind hrounds fun _ _ _ => fun _ => ⟨rfl, rfl⟩

end Lanes

end XLArig
