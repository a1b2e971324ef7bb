import XLArig.Sponge
import XLArig.Keccak.Permutation

/-!
# XLArig.Keccak.Sha3

`base/crypto/keccak` and `base/crypto/sha3`: one function that takes a whole message, and a context
that takes it in pieces.

The bytes of a state are those of its lanes, the lowest byte of a lane being the first.
-/

namespace XLArig

namespace Keccak

/-! ## The bytes of the lanes -/

/-- `st[i] ^= t`. -/
def addLane (i : Nat) (t : UInt64) (st : Lanes) : Lanes := fun k => if k.val = i then st k ^^^ t else st k

/-- `KeccakP1600_AddByte`. -/
def addByte (b : UInt8) (offset : Nat) (st : Lanes) : Lanes :=
  addLane (offset / 8) (b.toUInt64 <<< .ofNat (8 * (offset % 8))) st

/-- A byte of a state. -/
def byte (st : Lanes) (offset : Nat) : UInt8 :=
  if h : offset / 8 < 25 then (st ⟨offset / 8, h⟩ >>> .ofNat (8 * (offset % 8))).toUInt8 else 0

theorem addLane_zero (i : Nat) (st : Lanes) : addLane i 0 st = st := by
  funext k
  simp [addLane]

theorem addLane_addLane (i : Nat) (t u : UInt64) (st : Lanes) :
    addLane i u (addLane i t st) = addLane i (t ^^^ u) st := by
  funext k
  simp only [addLane]
  split_ifs
  · rw [UInt64.xor_assoc]
  · rfl

/-- A sponge on the lanes. -/
def sponge (permute : Lanes → Lanes) (rate : Nat) (h : 0 < rate) : Sponge Lanes where
  zero := fun _ => 0
  addByte := addByte
  byte := byte
  permute := permute
  rate := rate
  add_zero i s := by simp [addByte, addLane_zero]
  add_add a b i s := by
    rw [addByte, addByte, addLane_addLane, addByte, UInt8.toUInt64_xor, UInt64.shiftLeft_xor]
  rate_pos := h

section

variable (permute : Lanes → Lanes) (rate : Nat) (h : 0 < rate)

@[simp] theorem sponge_zero : (sponge permute rate h).zero = fun _ => 0 := rfl

@[simp] theorem sponge_addByte : (sponge permute rate h).addByte = addByte := rfl

@[simp] theorem sponge_byte : (sponge permute rate h).byte = byte := rfl

@[simp] theorem sponge_permute : (sponge permute rate h).permute = permute := rfl

@[simp] theorem sponge_rate : (sponge permute rate h).rate = rate := rfl

end

/-- `saved |= (uint64_t) (*(buf++)) << ((byteIndex++) * 8)` for each byte. -/
def store : List UInt8 → (byteIndex : Nat) → (saved : UInt64) → UInt64
  | [], _, saved => saved
  | b :: buf, byteIndex, saved =>
      store buf (byteIndex + 1) (saved ||| b.toUInt64 <<< .ofNat (8 * byteIndex))

section Store

variable {buf : List UInt8} {byteIndex : Nat} {saved : UInt64}

theorem toNat_shift (b : UInt8) {i : Nat} (hi : i < 8) :
    (b.toUInt64 <<< .ofNat (8 * i)).toNat = b.toNat * 2 ^ (8 * i) := by
  have hb : b.toNat < 2 ^ 8 := b.toNat_lt
  have hpow : 2 ^ 8 * 2 ^ (8 * i) ≤ 2 ^ 64 := by
    rw [← Nat.pow_add]
    exact Nat.pow_le_pow_right (by decide) (by omega)
  have hlt : b.toNat * 2 ^ (8 * i) < 2 ^ 64 :=
    (Nat.mul_lt_mul_of_pos_right hb (Nat.two_pow_pos _)).trans_le hpow
  rw [UInt64.toNat_shiftLeft, UInt64.toNat_ofNat', Nat.mod_mod_of_dvd _ (by decide),
    Nat.mod_eq_of_lt (a := 8 * i) (by omega), UInt8.toNat_toUInt64, Nat.shiftLeft_eq,
    Nat.mod_eq_of_lt hlt]

/-- A byte at a place that is free is added. -/
theorem store_byte (b : UInt8) (hi : byteIndex < 8) (h : saved.toNat < 2 ^ (8 * byteIndex)) :
    saved ||| b.toUInt64 <<< .ofNat (8 * byteIndex) = saved ^^^ b.toUInt64 <<< .ofNat (8 * byteIndex) ∧
      (saved ||| b.toUInt64 <<< .ofNat (8 * byteIndex)).toNat < 2 ^ (8 * (byteIndex + 1)) := by
  have hdvd : 2 ^ (8 * byteIndex) ∣ b.toNat * 2 ^ (8 * byteIndex) := Nat.dvd_mul_left ..
  constructor
  · apply UInt64.toNat_inj.mp
    rw [UInt64.toNat_or, UInt64.toNat_xor, toNat_shift b hi, Nat.or_comm, Nat.xor_comm]
    exact or_eq_xor hdvd h
  · have hb : b.toNat < 2 ^ 8 := b.toNat_lt
    rw [UInt64.toNat_or, toNat_shift b hi]
    apply Nat.or_lt_two_pow
    · exact h.trans_le (Nat.pow_le_pow_right (by decide) (by omega))
    · rw [Nat.mul_add, Nat.pow_add, Nat.mul_comm (2 ^ (8 * byteIndex))]
      exact Nat.mul_lt_mul_of_pos_right hb (Nat.two_pow_pos _)

/-- The bytes of a word are added one by one, or all of them at once. -/
theorem addBytes_addLane (permute : Lanes → Lanes) {rate : Nat} (hrate : 0 < rate)
    (wordIndex : Nat) (st : Lanes) (hlen : byteIndex + buf.length ≤ 8) (h : saved.toNat < 2 ^ (8 * byteIndex)) :
    (sponge permute rate hrate).addBytes buf (8 * wordIndex + byteIndex) (addLane wordIndex saved st) =
        addLane wordIndex (store buf byteIndex saved) st ∧
      (store buf byteIndex saved).toNat < 2 ^ (8 * (byteIndex + buf.length)) := by
  induction buf generalizing byteIndex saved with
  | nil => exact ⟨rfl, h⟩
  | cons b buf ih =>
      rw [List.length_cons] at hlen
      obtain ⟨hxor, hlt⟩ := store_byte b (show byteIndex < 8 by omega) h
      obtain ⟨heq, hbound⟩ := ih (show byteIndex + 1 + buf.length ≤ 8 by omega) hlt
      have hlane : (8 * wordIndex + byteIndex) / 8 = wordIndex := by omega
      have hplace : (8 * wordIndex + byteIndex) % 8 = byteIndex := by omega
      have hadd : (sponge permute rate hrate).addByte b (8 * wordIndex + byteIndex)
          (addLane wordIndex saved st) =
          addLane wordIndex (saved ||| b.toUInt64 <<< .ofNat (8 * byteIndex)) st := by
        rw [sponge_addByte, addByte, hlane, hplace, addLane_addLane, hxor]
      rw [Sponge.addBytes, hadd, Nat.add_assoc, heq, store, List.length_cons]
      refine ⟨rfl, ?_⟩
      rwa [Nat.add_comm buf.length, ← Nat.add_assoc]

end Store

/-! ## A whole message -/

inductive Fault
  | overrun
  deriving DecidableEq

/-- `((uint64_t *) in)[i]`. -/
def load64 (block : List UInt8) (i : Nat) : UInt64 := store ((block.drop (8 * i)).take 8) 0 0

/-- The loop `st[i] ^= ((uint64_t *) in)[i]`. -/
def addWords (rsizw : Nat) (block : List UInt8) (st : Lanes) : Lanes :=
  (List.range rsizw).foldl (fun st i => addLane i (load64 block i) st) st

/-- The loop over whole blocks. -/
def wholeBlocks (rsiz : Nat) : (fuel : Nat) → List UInt8 → Lanes → Lanes × List UInt8
  | 0, input, st => (st, input)
  | fuel + 1, input, st =>
      if rsiz ≤ input.length then
        wholeBlocks rsiz fuel (input.drop rsiz) (keccakf (addWords (rsiz / 8) input st) 24)
      else
        (st, input)

/-- `rsiz`. -/
def rsiz (mdlen : Nat) : Nat := if mdlen = 200 then 136 else 200 - 2 * mdlen

/-- What `temp` holds, which has 144 bytes. -/
def lastBlock (rsiz : Nat) (input : List UInt8) : Except Fault (List UInt8) :=
  if rsiz ≤ 144 then
    let temp := input ++ [1] ++ List.replicate (rsiz - (input.length + 1)) 0
    .ok (temp.set (rsiz - 1) (temp.getD (rsiz - 1) 0 ||| 0x80))
  else
    .error .overrun

/-- `keccak`. -/
def keccak (input : List UInt8) (mdlen : Nat) : Except Fault (List UInt8) := do
  let (st, input) := wholeBlocks (rsiz mdlen) input.length input fun _ => 0
  let temp ← lastBlock (rsiz mdlen) input
  let st := keccakf (addWords (rsiz mdlen / 8) temp st) 24
  .ok ((List.range mdlen).map (byte st))

section Whole

variable (permute : Lanes → Lanes) {rate : Nat} (hrate : 0 < rate) {input : List UInt8} (st : Lanes)

theorem addWords_eq {n : Nat} (h : 8 * n ≤ input.length) :
    (sponge permute rate hrate).addBytes (input.take (8 * n)) 0 st = addWords n input st := by
  induction n with
  | zero => rfl
  | succ n ih =>
      have hlen : (input.take (8 * n)).length = 8 * n := by
        rw [List.length_take]
        omega
      have hword : ((input.drop (8 * n)).take 8).length = 8 := by
        rw [List.length_take, List.length_drop]
        omega
      have hlane := (addBytes_addLane permute hrate n (addWords n input st)
        (show 0 + ((input.drop (8 * n)).take 8).length ≤ 8 by omega)
        (show (0 : UInt64).toNat < 2 ^ (8 * 0) by decide)).1
      rw [addLane_zero, Nat.add_zero] at hlane
      rw [Nat.mul_succ, List.take_add, Sponge.addBytes_append, ih (by omega), hlen, Nat.zero_add, hlane,
        addWords, addWords, List.range_succ, List.foldl_append]
      rfl

/-- A block of whole words is added word by word. -/
theorem absorb_block (hword : rate % 8 = 0) (h : rate ≤ input.length) :
    (sponge permute rate hrate).absorb (st, 0) (input.take rate) =
      (permute (addWords (rate / 8) input st), 0) := by
  have hlen : (input.take rate).length = rate := by
    rw [List.length_take]
    omega
  have hne : input.take rate ≠ [] := fun h => by
    rw [h, List.length_nil] at hlen
    omega
  have hrate8 : 8 * (rate / 8) = rate := by omega
  have hadd := addWords_eq permute hrate st
    (show 8 * (rate / 8) ≤ input.length by omega)
  rw [hrate8] at hadd
  rw [Sponge.absorb_of_eq hne (by rw [hlen]; exact Nat.zero_add _), hadd]
  rfl

theorem wholeBlocks_eq (hword : rate % 8 = 0) {fuel : Nat} (hfuel : input.length ≤ fuel) :
    (wholeBlocks rate fuel input st).2.length < rate ∧
      (sponge (keccakf · 24) rate hrate).absorb (st, 0) input =
        (sponge (keccakf · 24) rate hrate).absorb ((wholeBlocks rate fuel input st).1, 0)
          (wholeBlocks rate fuel input st).2 := by
  induction fuel generalizing input st with
  | zero => exact ⟨by simp only [wholeBlocks]; omega, rfl⟩
  | succ fuel ih =>
      rw [wholeBlocks]
      split_ifs with h
      · have hdrop : (input.drop rate).length ≤ fuel := by
          rw [List.length_drop]
          omega
        obtain ⟨hlt, heq⟩ := ih (keccakf (addWords (rate / 8) input st) 24) hdrop
        refine ⟨hlt, ?_⟩
        rw [← heq, ← absorb_block (keccakf · 24) hrate st hword h,
          ← Sponge.absorb_append, List.take_append_drop]
      · exact ⟨by simp only; omega, rfl⟩

theorem lastBlock_eq (h144 : rate ≤ 144) (h : input.length < rate) :
    lastBlock rate input = .ok (input ++ (sponge permute rate hrate).padding 1 input.length) := by
  have hmod : input.length % rate = input.length := Nat.mod_eq_of_lt h
  change (if rate ≤ 144 then _ else _) = _
  rw [if_pos h144]
  unfold Sponge.padding
  change _ = Except.ok (input ++ if input.length % rate + 1 = rate then _ else
    1 :: (List.replicate (rate - input.length % rate - 2) 0 ++ [0x80]))
  rw [hmod]
  split_ifs with hlast
  · have hlast' : rate - 1 = input.length := by omega
    have hnone : rate - (input.length + 1) = 0 := by omega
    simp [hlast', hnone]
    decide
  · obtain ⟨m, hm⟩ : ∃ m, rate - (input.length + 1) = m + 1 := ⟨rate - input.length - 2, by omega⟩
    have hm' : rate - input.length - 2 = m := by omega
    have hend : rate - 1 = (input ++ [1] ++ List.replicate m 0).length := by
      simp
      omega
    rw [hm, hm', List.replicate_succ', ← List.append_assoc (input ++ [1]), hend]
    simp

/-- Where each length of a digest is one of whole words, the function is the sponge. -/
theorem keccak_eq {mdlen : Nat} (h : mdlen = 200 ∨ 28 ≤ mdlen ∧ mdlen < 100 ∧ mdlen % 4 = 0)
    (hrate : 0 < rsiz mdlen) :
    keccak input mdlen =
      .ok (let P := sponge (keccakf · 24) (rsiz mdlen) hrate
        P.bytesFrom (P.state 1 input) 0 mdlen) := by
  have hrsiz : rsiz mdlen % 8 = 0 ∧ rsiz mdlen ≤ 144 := by
    unfold rsiz
    split_ifs <;> omega
  obtain ⟨hlt, heq⟩ := wholeBlocks_eq hrate (fun _ => 0) hrsiz.1 (le_refl input.length)
  generalize hblocks : wholeBlocks (rsiz mdlen) input.length input (fun _ => 0) = blocks at hlt heq
  obtain ⟨st, rest⟩ := blocks
  simp only at hlt heq
  have hlast := lastBlock_eq (keccakf · 24) hrate hrsiz.2 hlt
  have hpad := (sponge (keccakf · 24) (rsiz mdlen) hrate).absorb_pad (s := st)
    (show (1 : UInt8) < 0x80 by decide) rest
  generalize htemp : rest ++ (sponge (keccakf · 24) (rsiz mdlen) hrate).padding 1 rest.length = temp
    at hlast hpad
  have hlen : temp.length = rsiz mdlen := by
    rw [← htemp, List.length_append]
    exact Sponge.length_padding hlt
  have hblock := absorb_block (keccakf · 24) hrate st hrsiz.1 hlen.ge
  rw [List.take_of_length_le hlen.le, hpad, ← heq] at hblock
  have hstate : (sponge (keccakf · 24) (rsiz mdlen) hrate).finish 1
      ((sponge (keccakf · 24) (rsiz mdlen) hrate).absorb (fun _ => 0, 0) input) =
      (sponge (keccakf · 24) (rsiz mdlen) hrate).state 1 input :=
    Sponge.finish_absorb (by decide) input
  simp only [keccak, hblocks, hlast, bind, Except.bind, Sponge.bytesFrom, List.range_eq_range',
    ← hstate]
  have hfinish := congrArg Prod.fst hblock
  simp only at hfinish
  rw [← hfinish]
  rfl

end Whole

/-! ## A message in pieces -/

/-- `sha3_context`. -/
structure Context where
  saved : UInt64
  s : Lanes
  byteIndex : Nat
  wordIndex : Nat
  capacityWords : UInt32

namespace Context

/-- `SHA3_KECCAK_SPONGE_WORDS - SHA3_CW(capacityWords)`. -/
def rateWords (ctx : Context) : Nat := 25 - (ctx.capacityWords &&& ~~~0x80000000).toNat

/-- The end of a word: `++wordIndex`, and the permutation after the last one. -/
def endWord (ctx : Context) : Context :=
  if ctx.wordIndex + 1 = ctx.rateWords then { ctx with s := keccakf ctx.s 24, wordIndex := 0 }
  else { ctx with wordIndex := ctx.wordIndex + 1 }

/-- The loop over full words. -/
def fullWords (words : Nat) (buf : List UInt8) (ctx : Context) : Context :=
  (List.range words).foldl
    (fun ctx i => endWord { ctx with s := addLane ctx.wordIndex (load64 buf i) ctx.s }) ctx

/-- `sha3_Update`. -/
def update (ctx : Context) (buf : List UInt8) : Context :=
  let oldTail := (8 - ctx.byteIndex) % 8
  if buf.length < oldTail then
    { ctx with
      saved := store buf ctx.byteIndex ctx.saved
      byteIndex := ctx.byteIndex + buf.length }
  else
    let ctx :=
      if oldTail ≠ 0 then
        let saved := store (buf.take oldTail) ctx.byteIndex ctx.saved
        endWord { ctx with s := addLane ctx.wordIndex saved ctx.s, byteIndex := 0, saved := 0 }
      else ctx
    let buf := buf.drop oldTail
    let words := buf.length / 8
    let ctx := fullWords words buf ctx
    let buf := buf.drop (8 * words)
    { ctx with
      saved := store buf ctx.byteIndex ctx.saved
      byteIndex := ctx.byteIndex + buf.length }

/-- `sha3_Finalize`, which returns the bytes of the state. -/
def finalize (ctx : Context) : List UInt8 :=
  let suffix : UInt64 := if ctx.capacityWords &&& 0x80000000 ≠ 0 then 1 else (0x02 : UInt64) ||| (1 : UInt64) <<< 2
  let t := suffix <<< .ofNat (8 * ctx.byteIndex)
  let s := addLane ctx.wordIndex (ctx.saved ^^^ t) ctx.s
  let s := addLane (ctx.rateWords - 1) 0x8000000000000000 s
  (List.range 200).map (byte (keccakf s 24))

/-- `sha3_Init`. -/
def init (bitSize : Nat) : Option Context :=
  if bitSize ≠ 256 ∧ bitSize ≠ 384 ∧ bitSize ≠ 512 then none
  else some ⟨0, fun _ => 0, 0, 0, .ofNat (2 * bitSize / 64)⟩

/-- `sha3_SetFlags`, and whether these are flags that are known. -/
def setFlags (ctx : Context) (flags : Nat) : Option Context :=
  let known := flags &&& 1
  if known ≠ flags then none
  else
    some { ctx with capacityWords := ctx.capacityWords ||| if known = 1 then 0x80000000 else 0 }

/-- A digest of a message that comes in pieces. -/
def digest (bitSize flags : Nat) (pieces : List (List UInt8)) (outBytes : Nat) : Option (List UInt8) := do
  let ctx ← init bitSize
  let ctx ← ctx.setFlags flags
  let h := (pieces.foldl update ctx).finalize
  some (h.take (min outBytes (bitSize / 8)))

/-- `sha3_HashBuffer`. -/
def hashBuffer (bitSize flags : Nat) (input : List UInt8) (outBytes : Nat) : Option (List UInt8) :=
  digest bitSize flags [input] outBytes

/-- A context stands for a sponge: its word that is not complete is added already. -/
structure Represents (rate : Nat) (ctx : Context) (x : Lanes × Nat) : Prop where
  rate_eq : rate = 8 * ctx.rateWords
  byte_lt : ctx.byteIndex < 8
  saved_lt : ctx.saved.toNat < 2 ^ (8 * ctx.byteIndex)
  word_lt : ctx.wordIndex < ctx.rateWords
  state : x = (addLane ctx.wordIndex ctx.saved ctx.s, 8 * ctx.wordIndex + ctx.byteIndex)

section Represents

variable {rate : Nat} (hrate : 0 < rate) {ctx : Context} {x : Lanes × Nat} {buf : List UInt8}

/-- Bytes that do not complete the word. -/
theorem Represents.store (h : Represents rate ctx x) (hlen : ctx.byteIndex + buf.length < 8) :
    Represents rate
      { ctx with
        saved := store buf ctx.byteIndex ctx.saved
        byteIndex := ctx.byteIndex + buf.length }
      ((sponge (keccakf · 24) rate hrate).absorb x buf) := by
  obtain ⟨hrate', hbyte, hsaved, hword, rfl⟩ := h
  obtain ⟨hadd, hlt⟩ := addBytes_addLane (keccakf · 24) hrate ctx.wordIndex ctx.s hlen.le
    hsaved
  refine ⟨hrate', hlen, hlt, hword, ?_⟩
  have hfits : 8 * ctx.wordIndex + ctx.byteIndex + buf.length < (sponge (keccakf · 24) rate hrate).rate := by
    change _ < rate
    omega
  rw [Sponge.absorb_of_lt hfits, hadd, Nat.add_assoc]

/-- Bytes that complete it. -/
theorem Represents.word (h : Represents rate ctx x) (hlen : ctx.byteIndex + buf.length = 8) :
    Represents rate
      (endWord { ctx with
        s := addLane ctx.wordIndex (Keccak.store buf ctx.byteIndex ctx.saved) ctx.s
        byteIndex := 0
        saved := 0 })
      ((sponge (keccakf · 24) rate hrate).absorb x buf) := by
  obtain ⟨hrate', hbyte, hsaved, hword, rfl⟩ := h
  obtain ⟨hadd, -⟩ := addBytes_addLane (keccakf · 24) hrate ctx.wordIndex ctx.s hlen.le
    hsaved
  have hne : buf ≠ [] := fun h => by
    rw [h, List.length_nil] at hlen
    omega
  unfold endWord
  split_ifs with hlast
  · have hlast : ctx.wordIndex + 1 = ctx.rateWords := hlast
    have hfull : 8 * ctx.wordIndex + ctx.byteIndex + buf.length =
        (sponge (keccakf · 24) rate hrate).rate := by
      change _ = rate
      omega
    refine ⟨hrate', show 0 < 8 by decide, show (0 : UInt64).toNat < 2 ^ (8 * 0) by decide,
      show 0 < ctx.rateWords by omega, ?_⟩
    rw [Sponge.absorb_of_eq hne hfull, hadd]
    simp only [addLane_zero]
    rfl
  · have hlast : ctx.wordIndex + 1 ≠ ctx.rateWords := hlast
    have hfits : 8 * ctx.wordIndex + ctx.byteIndex + buf.length <
        (sponge (keccakf · 24) rate hrate).rate := by
      change _ < rate
      omega
    refine ⟨hrate', show 0 < 8 by decide, show (0 : UInt64).toNat < 2 ^ (8 * 0) by decide,
      show ctx.wordIndex + 1 < ctx.rateWords by omega, ?_⟩
    rw [Sponge.absorb_of_lt hfits, hadd, Nat.add_assoc, hlen]
    simp only [addLane_zero]
    rfl

theorem endWord_byteIndex (ctx : Context) : ctx.endWord.byteIndex = ctx.byteIndex := by
  unfold endWord
  split_ifs <;> rfl

theorem endWord_saved (ctx : Context) : ctx.endWord.saved = ctx.saved := by
  unfold endWord
  split_ifs <;> rfl

theorem endWord_capacityWords (ctx : Context) : ctx.endWord.capacityWords = ctx.capacityWords := by
  unfold endWord
  split_ifs <;> rfl

theorem fullWords_capacityWords (words : Nat) (buf : List UInt8) (ctx : Context) :
    (fullWords words buf ctx).capacityWords = ctx.capacityWords := by
  induction words with
  | zero => rfl
  | succ n ih =>
      rw [Context.fullWords, List.range_succ, List.foldl_append]
      exact (endWord_capacityWords _).trans ih

theorem update_capacityWords (ctx : Context) (buf : List UInt8) :
    (ctx.update buf).capacityWords = ctx.capacityWords := by
  unfold Context.update
  simp only
  split_ifs
  · rfl
  · exact (fullWords_capacityWords ..).trans (endWord_capacityWords _)
  · exact fullWords_capacityWords ..

theorem updates_capacityWords (ctx : Context) (pieces : List (List UInt8)) :
    (pieces.foldl Context.update ctx).capacityWords = ctx.capacityWords := by
  induction pieces generalizing ctx with
  | nil => rfl
  | cons buf pieces ih => exact (ih _).trans (update_capacityWords ctx buf)

/-- Full words, where no word has been begun. -/
theorem Represents.fullWords {words : Nat} (h : Represents rate ctx x) (hbyte : ctx.byteIndex = 0)
    (hsaved : ctx.saved = 0) (hlen : 8 * words ≤ buf.length) :
    (fullWords words buf ctx).byteIndex = 0 ∧ (fullWords words buf ctx).saved = 0 ∧
      Represents rate (Context.fullWords words buf ctx)
        ((sponge (keccakf · 24) rate hrate).absorb x (buf.take (8 * words))) := by
  induction words with
  | zero => exact ⟨hbyte, hsaved, h⟩
  | succ n ih =>
      obtain ⟨hbyte, hsaved, hprev⟩ := ih (by omega)
      have hword : ((buf.drop (8 * n)).take 8).length = 8 := by
        rw [List.length_take, List.length_drop]
        omega
      have hnext := hprev.word hrate (hbyte ▸ (Nat.zero_add _).trans hword)
      have hctx : Context.fullWords (n + 1) buf ctx = endWord { Context.fullWords n buf ctx with
          s := addLane (Context.fullWords n buf ctx).wordIndex (load64 buf n)
            (Context.fullWords n buf ctx).s } := by
        simp only [Context.fullWords, List.range_succ, List.foldl_append, List.foldl_cons, List.foldl_nil]
      rw [hbyte, hsaved, ← Sponge.absorb_append, ← List.take_add, ← Nat.mul_succ] at hnext
      have hsame : { Context.fullWords n buf ctx with
          s := addLane (Context.fullWords n buf ctx).wordIndex
            (Keccak.store ((buf.drop (8 * n)).take 8) 0 0) (Context.fullWords n buf ctx).s
          byteIndex := 0
          saved := 0 } = { Context.fullWords n buf ctx with
          s := addLane (Context.fullWords n buf ctx).wordIndex (load64 buf n)
            (Context.fullWords n buf ctx).s } := by
        rw [load64, ← hbyte, ← hsaved]
      rw [hsame, ← hctx] at hnext
      refine ⟨?_, ?_, hnext⟩
      · rw [hctx, endWord_byteIndex]
        exact hbyte
      · rw [hctx, endWord_saved]
        exact hsaved

/-- The word that was begun is completed first. -/
theorem Represents.begun (h : Represents rate ctx x) (hlen : (8 - ctx.byteIndex) % 8 ≤ buf.length) :
    let first :=
      if (8 - ctx.byteIndex) % 8 ≠ 0 then
        endWord { ctx with
          s := addLane ctx.wordIndex
            (Keccak.store (buf.take ((8 - ctx.byteIndex) % 8)) ctx.byteIndex ctx.saved) ctx.s
          byteIndex := 0
          saved := 0 }
      else ctx
    first.byteIndex = 0 ∧ first.saved = 0 ∧
      Represents rate first
        ((sponge (keccakf · 24) rate hrate).absorb x (buf.take ((8 - ctx.byteIndex) % 8))) := by
  have hbyte := h.byte_lt
  intro first
  by_cases hzero : (8 - ctx.byteIndex) % 8 = 0
  · have hindex : ctx.byteIndex = 0 := by omega
    have hsaved := h.saved_lt
    rw [hindex] at hsaved
    have hfirst : first = ctx := if_neg (not_not.mpr hzero)
    rw [hfirst, hzero]
    exact ⟨hindex, UInt64.toNat_inj.mp (Nat.lt_one_iff.mp hsaved), h⟩
  · have hfirst : first = endWord { ctx with
        s := addLane ctx.wordIndex
          (Keccak.store (buf.take ((8 - ctx.byteIndex) % 8)) ctx.byteIndex ctx.saved) ctx.s
        byteIndex := 0
        saved := 0 } := if_pos hzero
    rw [hfirst, endWord_byteIndex, endWord_saved]
    refine ⟨rfl, rfl, h.word hrate ?_⟩
    rw [List.length_take]
    omega

/-- **A piece of a message is absorbed**, wherever it is cut. -/
theorem Represents.update (h : Represents rate ctx x) (buf : List UInt8) :
    Represents rate (ctx.update buf) ((sponge (keccakf · 24) rate hrate).absorb x buf) := by
  have hbyte := h.byte_lt
  unfold Context.update
  simp only
  by_cases hshort : buf.length < (8 - ctx.byteIndex) % 8
  · rw [if_pos hshort]
    exact h.store hrate (by omega)
  · rw [if_neg hshort]
    have hbegun := h.begun hrate (Nat.le_of_not_lt hshort)
    simp only at hbegun
    obtain ⟨hbyte, hsaved, hfirst⟩ := hbegun
    generalize (8 - ctx.byteIndex) % 8 = oldTail at *
    generalize (if oldTail ≠ 0 then _ else ctx) = first at *
    obtain ⟨hbyte, hsaved, hwords⟩ := hfirst.fullWords hrate hbyte hsaved
      (show 8 * ((buf.drop oldTail).length / 8) ≤ (buf.drop oldTail).length by omega)
    have htail : (Context.fullWords ((buf.drop oldTail).length / 8) (buf.drop oldTail) first).byteIndex +
        ((buf.drop oldTail).drop (8 * ((buf.drop oldTail).length / 8))).length < 8 := by
      rw [hbyte, List.length_drop]
      omega
    have hrest := hwords.store hrate htail
    rwa [← Sponge.absorb_append, List.take_append_drop, ← Sponge.absorb_append,
      List.take_append_drop] at hrest

theorem Represents.updates (h : Represents rate ctx x) (pieces : List (List UInt8)) :
    Represents rate (pieces.foldl Context.update ctx)
      ((sponge (keccakf · 24) rate hrate).absorb x pieces.flatten) := by
  induction pieces generalizing ctx x with
  | nil => exact h
  | cons buf pieces ih =>
      rw [List.foldl_cons, List.flatten_cons, Sponge.absorb_append]
      exact ih (h.update hrate buf)

/-- The suffix of the padding. -/
def suffix (capacityWords : UInt32) : UInt8 := if capacityWords &&& 0x80000000 ≠ 0 then 1 else 6

theorem Represents.finalize (h : Represents rate ctx x) :
    ctx.finalize =
      let P := sponge (keccakf · 24) rate hrate
      P.bytesFrom (P.finish (suffix ctx.capacityWords) x) 0 200 := by
  obtain ⟨hrate', hbyte, hsaved, hword, rfl⟩ := h
  have hsuffix : (if ctx.capacityWords &&& 0x80000000 ≠ 0 then (1 : UInt64)
      else (0x02 : UInt64) ||| (1 : UInt64) <<< 2) = (suffix ctx.capacityWords).toUInt64 := by
    unfold suffix
    split_ifs <;> rfl
  have hsmall : suffix ctx.capacityWords < 0x80 := by
    unfold suffix
    split_ifs <;> decide
  have hlane : (8 * ctx.wordIndex + ctx.byteIndex) / 8 = ctx.wordIndex := by omega
  have hplace : (8 * ctx.wordIndex + ctx.byteIndex) % 8 = ctx.byteIndex := by omega
  have hend : (rate - 1) / 8 = ctx.rateWords - 1 := by omega
  have hlast : (rate - 1) % 8 = 7 := by omega
  have hbit : (0x80 : UInt8).toUInt64 <<< .ofNat (8 * 7) = 0x8000000000000000 := by decide
  have hfinish : (sponge (keccakf · 24) rate hrate).finish (suffix ctx.capacityWords)
      (addLane ctx.wordIndex ctx.saved ctx.s, 8 * ctx.wordIndex + ctx.byteIndex) =
      keccakf (addLane (ctx.rateWords - 1) 0x8000000000000000 (addLane ctx.wordIndex
        (ctx.saved ^^^ (suffix ctx.capacityWords).toUInt64 <<< .ofNat (8 * ctx.byteIndex)) ctx.s)) 24 := by
    rw [Sponge.finish_of_lt hsmall, sponge_permute, sponge_addByte, sponge_rate, addByte, addByte, hlane, hplace, hend, hlast, hbit, addLane_addLane]
  unfold Context.finalize
  simp only
  rw [hsuffix, hfinish, Sponge.bytesFrom, List.range_eq_range', sponge_byte]
end Represents

theorem take_bytes (s : Lanes) {n : Nat} (h : n ≤ 200) :
    ((List.range 200).map (byte s)).take n = (List.range n).map (byte s) := by
  rw [← List.map_take, List.take_range, Nat.min_eq_left h]

theorem digest_size {bitSize : Nat} (h : bitSize = 256 ∨ bitSize = 384 ∨ bitSize = 512) :
    0 < 200 - bitSize / 4 := by omega

theorem represents_init {rate : Nat} {c : UInt32} (hrate : 0 < rate)
    (h : rate = 8 * (25 - (c &&& ~~~0x80000000).toNat)) :
    Represents rate ⟨0, fun _ => 0, 0, 0, c⟩ (fun _ => 0, 0) := by
  have hwords : rate = 8 * rateWords ⟨0, fun _ => 0, 0, 0, c⟩ := h
  refine ⟨hwords, show 0 < 8 by decide, show (0 : UInt64).toNat < 2 ^ (8 * 0) by decide, ?_, ?_⟩
  · change 0 < rateWords _
    omega
  · rw [addLane_zero]
    rfl

theorem digest_of_size {bitSize flags : Nat} (hsize : bitSize = 256 ∨ bitSize = 384 ∨ bitSize = 512)
    (hflags : flags ≤ 1) (outBytes : Nat) (pieces : List (List UInt8)) :
    digest bitSize flags pieces outBytes =
      some ((sponge (keccakf · 24) (200 - bitSize / 4) (digest_size hsize)).hash
        (if flags = 1 then 1 else 6) (min outBytes (bitSize / 8)) pieces.flatten) := by
  have hrate := digest_size hsize
  obtain ⟨c, hset, hrate', hsuffix⟩ : ∃ c : UInt32,
      (init bitSize >>= fun ctx => ctx.setFlags flags) = some ⟨0, fun _ => 0, 0, 0, c⟩ ∧
      200 - bitSize / 4 = 8 * (25 - (c &&& ~~~0x80000000).toNat) ∧
      suffix c = if flags = 1 then 1 else 6 := by
    obtain rfl | rfl : flags = 0 ∨ flags = 1 := by omega
    · obtain rfl | rfl | rfl := hsize
      · exact ⟨_, rfl, by decide, by decide⟩
      · exact ⟨_, rfl, by decide, by decide⟩
      · exact ⟨_, rfl, by decide, by decide⟩
    · obtain rfl | rfl | rfl := hsize
      · exact ⟨_, rfl, by decide, by decide⟩
      · exact ⟨_, rfl, by decide, by decide⟩
      · exact ⟨_, rfl, by decide, by decide⟩
  have hall := ((represents_init hrate hrate').updates hrate pieces).finalize hrate
  have hcapacity : (pieces.foldl update ⟨0, fun _ => 0, 0, 0, c⟩).capacityWords = c :=
    updates_capacityWords _ pieces
  have hle : min outBytes (bitSize / 8) ≤ 200 - bitSize / 4 := by omega
  have hdigest : digest bitSize flags pieces outBytes =
      (init bitSize >>= fun ctx => ctx.setFlags flags) >>= fun ctx =>
        some ((pieces.foldl update ctx).finalize.take (min outBytes (bitSize / 8))) := by
    rw [digest, bind_assoc]
  rw [hdigest, hset]
  simp only [Option.bind_eq_bind, Option.bind_some, hall, hcapacity, hsuffix]
  have hsmall : (if flags = 1 then 1 else 6 : UInt8) < 0x80 := by split_ifs <;> decide
  rw [Sponge.hash_of_le (by rw [sponge_rate]; omega), Sponge.bytesFrom, Sponge.bytesFrom,
    ← List.range_eq_range', ← List.range_eq_range', sponge_byte, take_bytes _ (by omega),
    ← Sponge.finish_absorb hsmall, sponge_zero]

/-- **A message in pieces has the hash of the sponge**, for the sizes and flags that there are. -/
theorem digest_eq (bitSize flags outBytes : Nat) (pieces : List (List UInt8)) :
    digest bitSize flags pieces outBytes =
      if h : (bitSize = 256 ∨ bitSize = 384 ∨ bitSize = 512) ∧ flags ≤ 1 then
        some ((sponge (keccakf · 24) (200 - bitSize / 4) (digest_size h.1)).hash
          (if flags = 1 then 1 else 6) (min outBytes (bitSize / 8)) pieces.flatten)
      else none := by
  by_cases h : (bitSize = 256 ∨ bitSize = 384 ∨ bitSize = 512) ∧ flags ≤ 1
  · rw [dif_pos h]
    exact digest_of_size h.1 h.2 outBytes pieces
  · rw [dif_neg h]
    by_cases hsize : bitSize = 256 ∨ bitSize = 384 ∨ bitSize = 512
    · have hflags : flags &&& 1 ≠ flags := fun heq => by
        have hle : flags &&& 1 ≤ 1 := Nat.and_le_right
        exact h ⟨hsize, by omega⟩
      have hset : ∀ ctx : Context, ctx.setFlags flags = none := fun ctx => if_pos hflags
      rw [digest]
      simp only [hset, Option.bind_eq_bind, Option.bind_none, Option.bind_fun_none]
    · have hinit : init bitSize = none := if_pos (by omega)
      rw [digest, hinit]
      rfl

/-- **Both functions are the same hash**: the one that takes a whole message, and the context that
takes it in pieces and has the flag of Keccak. -/
theorem keccak_eq_digest {bitSize : Nat} (h : bitSize = 256 ∨ bitSize = 384 ∨ bitSize = 512)
    (pieces : List (List UInt8)) :
    ∃ md, keccak pieces.flatten (bitSize / 8) = .ok md ∧
      digest bitSize 1 pieces (bitSize / 8) = some md := by
  have hrate := digest_size h
  have hrsiz : rsiz (bitSize / 8) = 200 - bitSize / 4 := by
    unfold rsiz
    split_ifs <;> omega
  refine ⟨_, keccak_eq (by omega) (by omega), ?_⟩
  rw [digest_of_size h le_rfl, if_pos rfl, Nat.min_self,
    Sponge.hash_of_le (by rw [sponge_rate]; omega)]
  simp only [hrsiz]

theorem keccak_eq_digest_empty :
    ∃ md, keccak [[], []].flatten (256 / 8) = .ok md ∧ digest 256 1 [[], []] (256 / 8) = some md :=
  keccak_eq_digest (.inl rfl) [[], []]

end Context

end Keccak

end XLArig
