import XLArig.RandomX.Aes
import XLArig.Traced

/-!
# XLArig.RandomX.Fused

`hashAndFillAes1Rx4` as it loads and stores the blocks of the scratchpad, one note for each.

`rounds` is the version of `aesenc` and `aesdec` that is used: that of `softAes` in the code,
and with 0 any two functions, so the same in all instances.

* `done_hashAndFill` — a pass of the loop, however it is unrolled, loads and stores the blocks
  on its way;
* `hashAndFillAes1Rx4_touches` — the result is that of `hashAes1Rx4` and `fillAes1Rx4`, and every
  block is loaded once and stored once.
-/

namespace XLArig

namespace Fused

open Traced

/-- A block of the scratchpad is loaded or stored. -/
inductive Touch
  | load (block : Nat)
  | store (block : Nat)
  deriving DecidableEq, Repr

/-- `hash_state0` to `hash_state3`, and `fill_state0` to `fill_state3`. -/
structure Lanes where
  hash : Block
  fill : Block

abbrev Program (α : Type) : Type := Traced (Nat → Block) Touch α

/-- The notes of loads of the first `i` blocks and stores of the first `j`. -/
def touches (i j : Nat) : List Touch :=
  (List.range i).map Touch.load ++ (List.range j).map Touch.store

theorem perm_touches_load {i j : Nat} : (touches i j ++ [Touch.load i]).Perm (touches (i + 1) j) := by
  simp only [touches, List.range_succ, List.map_append, List.map_singleton, List.append_assoc]
  exact List.Perm.append_left _ List.perm_append_comm

theorem touches_store {i j : Nat} : touches i j ++ [Touch.store j] = touches i (j + 1) := by
  simp [touches, List.range_succ]

section

variable [AesUnit]

/-- `HASH_STATE(k)`, at the end of a program. -/
def HASH_STATE (rounds p k : Nat) (x : Program Lanes) : Program Lanes := do
  let s ← x
  let block ← Traced.read (Touch.load (p / 64 + k)) fun m => m (p / 64 + k)
  pure { s with hash := hashState rounds s.hash block }

/-- `FILL_STATE(k)`, at the end of a program. -/
def FILL_STATE (rounds p k : Nat) (x : Program Lanes) : Program Lanes := do
  let s ← x
  let fill := fillState rounds s.fill
  Traced.write (Touch.store (p / 64 + k)) fun m => Function.update m (p / 64 + k) fill
  pure { s with fill }

local instance stride64 : NeZero 64 := ⟨by decide⟩

local instance stride128 : NeZero 128 := ⟨by decide⟩

local instance stride256 : NeZero 256 := ⟨by decide⟩

/-- The inner loop, at the end of a program. -/
def hashAndFill (rounds softAes unroll stop p : Nat) (x : Program Lanes) : Nat × Program Lanes :=
  let HASH := HASH_STATE rounds
  let FILL := FILL_STATE rounds
  match softAes with
  | 0 => sweep 128 (fun p x => FILL p 1 (FILL p 0 (HASH p 1 (HASH p 0 x)))) stop p x
  | _ =>
      match unroll with
      | 4 => sweep 256 (fun p x => FILL p 3 (HASH p 3 (FILL p 2 (HASH p 2
          (FILL p 1 (HASH p 1 (FILL p 0 (HASH p 0 x)))))))) stop p x
      | 2 => sweep 128 (fun p x => FILL p 1 (HASH p 1 (FILL p 0 (HASH p 0 x)))) stop p x
      | _ => sweep 64 (fun p x => FILL p 0 (HASH p 0 x)) stop p x

/-- The two passes of `hashAndFillAes1Rx4`; before the prefetch distance there is no first one. -/
def passes (rounds softAes unroll scratchpadSize : Nat) (state : Block) : Program Lanes :=
  let x : Program Lanes := pure ⟨AES_HASH_1R_STATE, state⟩
  let (p, x) := hashAndFill rounds softAes unroll (scratchpadSize - PREFETCH_DISTANCE) 0 x
  (hashAndFill rounds softAes unroll scratchpadSize p x).2

/-- `hashAndFillAes1Rx4<softAes, unroll>`: the hash, and the state that is written back. -/
def hashAndFillAes1Rx4 (rounds softAes unroll scratchpadSize : Nat) (state : Block) :
    Program (Block × Block) := do
  let s ← passes rounds softAes unroll scratchpadSize state
  pure (diffuse rounds s.hash, s.fill)

variable {rounds softAes unroll size stop p k i j : Nat} {m : Nat → Block} {state : Block}
  {x : Program Lanes}

/-- The program has loaded the first `i` blocks and stored the first `j`, each once. -/
structure Done (rounds : Nat) (m : Nat → Block) (state : Block) (i j : Nat) (x : Program Lanes) :
    Prop where
  at_blocks : Pass.At (hashState rounds) (fillState rounds) id ⟨m, AES_HASH_1R_STATE, state⟩ i j
    ⟨(x m).2.1, (x m).1.hash, (x m).1.fill⟩
  touched : (x.noted m).Perm (touches i j)

theorem done_start : Done rounds m state 0 0 (pure ⟨AES_HASH_1R_STATE, state⟩) where
  at_blocks := .start
  touched := .nil

theorem done_hash (h : Done rounds m state (p / 64 + k) j x) (hle : j ≤ p / 64 + k) :
    Done rounds m state (p / 64 + (k + 1)) j (HASH_STATE rounds p k x) where
  at_blocks := h.at_blocks.read hle
  touched := by
    have hnoted : (HASH_STATE rounds p k x).noted m = x.noted m ++ [Touch.load (p / 64 + k)] := rfl
    rw [hnoted]
    exact (h.touched.append_right _).trans perm_touches_load

theorem done_fill (h : Done rounds m state i (p / 64 + k) x) :
    Done rounds m state i (p / 64 + (k + 1)) (FILL_STATE rounds p k x) where
  at_blocks := h.at_blocks.write
  touched := by
    have hnoted : (FILL_STATE rounds p k x).noted m = x.noted m ++ [Touch.store (p / 64 + k)] := rfl
    rw [hnoted, ← Nat.add_assoc, ← touches_store]
    exact h.touched.append_right _

/-- The program is done with the blocks before `p`. -/
def Swept (rounds : Nat) (m : Nat → Block) (state : Block) (p : Nat) (x : Program Lanes) : Prop :=
  Done rounds m state (p / 64) (p / 64) x

/-- The loop stops with the blocks before its end done. -/
theorem done_hashAndFill (softAes unroll : Nat) (hdvd : 256 ∣ stop - p) (hle : p ≤ stop)
    (h : Swept rounds m state p x) :
    (hashAndFill rounds softAes unroll stop p x).1 = stop ∧
      Swept rounds m state stop (hashAndFill rounds softAes unroll stop p x).2 := by
  have heq : hashAndFill rounds softAes unroll stop p x =
      unrolled (HASH_STATE rounds) (FILL_STATE rounds) softAes unroll stop p x := rfl
  rw [heq]
  exact unrolled_rule done_hash done_fill softAes unroll hdvd hle h

theorem done_passes (rounds softAes unroll : Nat) (hsize : 256 ∣ size) (m : Nat → Block)
    (state : Block) :
    Done rounds m state (size / 64) (size / 64) (passes rounds softAes unroll size state) := by
  have hdist : 256 ∣ PREFETCH_DISTANCE := by decide
  have hless : 256 ∣ size - PREFETCH_DISTANCE - 0 := by
    rw [Nat.sub_zero]
    exact Nat.dvd_sub hsize hdist
  have hrest : 256 ∣ size - (size - PREFETCH_DISTANCE) :=
    Nat.dvd_sub hsize (Nat.dvd_sub hsize hdist)
  have hstart : Swept rounds m state 0 (pure ⟨AES_HASH_1R_STATE, state⟩) := done_start
  obtain ⟨hstop, hfirst⟩ := done_hashAndFill softAes unroll hless (Nat.zero_le _) hstart
  unfold passes
  dsimp only
  rw [hstop]
  exact (done_hashAndFill softAes unroll hrest (Nat.sub_le _ _) hfirst).2

/-- Each instance returns the hash of the old scratchpad, leaves what the generator alone
leaves, and loads and stores every block once. -/
theorem hashAndFillAes1Rx4_touches (rounds softAes unroll : Nat) (hsize : 256 ∣ size)
    (m : Nat → Block) (state : Block) :
    let r := hashAndFillAes1Rx4 rounds softAes unroll size state m
    r.1.1 = hashAes1Rx4 rounds m size ∧
      (r.2.1, r.1.2) = fillAes1Rx4 rounds state size m ∧
      r.2.2.Perm (touches (size / 64) (size / 64)) := by
  have h64 : 64 ∣ size := .trans (by decide) hsize
  have hdone := done_passes rounds softAes unroll hsize m state
  have hnoted : (hashAndFillAes1Rx4 rounds softAes unroll size state m).2.2 =
      (passes rounds softAes unroll size state).noted m ++ [] := rfl
  dsimp only
  rw [hashAes1Rx4_eq h64, fillAes1Rx4_eq h64, hnoted, List.append_nil]
  exact ⟨congrArg (diffuse rounds) hdone.at_blocks.acc,
    Prod.ext hdone.at_blocks.mem hdone.at_blocks.gen, hdone.touched⟩

/-- With the rounds of the instance these are the results of the loops alone. -/
theorem hashAndFillAes1Rx4_run (hsize : 256 ∣ size) (m : Nat → Block) (state : Block) :
    let r := hashAndFillAes1Rx4 softAes softAes unroll size state m
    XLArig.hashAndFillAes1Rx4 softAes unroll m size state = (r.2.1, r.1.1, r.1.2) := by
  have h64 : 64 ∣ size := .trans (by decide) hsize
  obtain ⟨hhash, hfill, -⟩ := hashAndFillAes1Rx4_touches softAes softAes unroll hsize m state
  obtain ⟨hmem, hgen⟩ := Prod.mk.inj (hfill.trans (fillAes1Rx4_eq h64 m state))
  dsimp only
  rw [hashAndFillAes1Rx4_eq hsize, hhash, hashAes1Rx4_eq h64, hmem, hgen]

end

/-- A round that forgets the key, and one that forgets the state. -/
abbrev plainUnit : AesUnit where
  aesenc state _ := state
  aesdec _ key := key
  lutEnc0 _ := 0
  lutEnc1 _ := 0
  lutEnc2 _ := 0
  lutEnc3 _ := 0
  lutDec0 _ := 0
  lutDec1 _ := 0
  lutDec2 _ := 0
  lutDec3 _ := 0

theorem hashAndFillAes1Rx4_touches_plain :
    let r := @hashAndFillAes1Rx4 plainUnit 0 2 4 7424 AES_GEN_1R_KEY fun _ => AES_HASH_1R_STATE
    (r.2.1, r.1.2) = @fillAes1Rx4 plainUnit 0 AES_GEN_1R_KEY 7424 (fun _ => AES_HASH_1R_STATE) ∧
      r.2.2.Perm (touches 116 116) := by
  have h := @hashAndFillAes1Rx4_touches plainUnit 7424 0 2 4 (by decide)
    (fun _ => AES_HASH_1R_STATE) AES_GEN_1R_KEY
  dsimp only at h ⊢
  exact h.2

end Fused

end XLArig
