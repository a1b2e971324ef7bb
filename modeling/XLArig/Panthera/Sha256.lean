import XLArig.Chain
import XLArig.Panthera.Transform

/-!
# XLArig.Panthera.Sha256

`crypto/randomx/panthera/sha256`: a context that takes a message in pieces, and the padding.

A context is what the code declares: eight words, a count of bits that wraps, and a buffer of 64
bytes of which only a part is in use.
-/

namespace XLArig

namespace Sha256

/-! ## The context -/

/-- `SHA256_CTX`. -/
structure Sha256Ctx where
  state : Words
  count : UInt64
  buf : List UInt8

def pad : List UInt8 := 0x80 :: List.replicate 63 0

/-- `memcpy` into a buffer. -/
def copy (buf : List UInt8) (i : Nat) (src : List UInt8) : List UInt8 :=
  buf.take i ++ src ++ buf.drop (i + src.length)

/-- `initial_state`. -/
def initialState : Words :=
  #v[0x6A09E667, 0xBB67AE85, 0x3C6EF372, 0xA54FF53A, 0x510E527F, 0x9B05688C, 0x1F83D9AB, 0x5BE0CD19]

/-- The chain of the blocks. -/
def chain : Chain Words UInt8 := ⟨transform, 64, Nat.succ_pos 63⟩

/-- The same with the compression function of the standard. -/
def standard : Chain Words UInt8 := ⟨compress, 64, Nat.succ_pos 63⟩

/-- What is put behind a message of `n` bytes. -/
def padding (n : Nat) : List UInt8 :=
  0x80 :: (List.replicate ((119 - n % 64) % 64) 0 ++ be64enc (.ofNat (8 * n)))

/-- SHA-256: the padded message, block by block. -/
def sha256 (message : List UInt8) : List UInt8 :=
  let padded := message ++ padding message.length
  be32encVect (standard.blocks (padded.length / 64) initialState padded)

/-- The state after a message and the part of it that is not in a block. -/
abbrev after (message : List UInt8) : Words × List UInt8 := chain.absorb (initialState, []) message

namespace Sha256Ctx

/-- How many bytes are in the buffer. -/
def buffered (ctx : Sha256Ctx) : Nat := ((ctx.count >>> 3) &&& 0x3f).toNat

/-- `SHA256_Init`; the buffer is not touched. -/
def sha256Init (ctx : Sha256Ctx) : Sha256Ctx := { ctx with count := 0, state := initialState }

/-- The loop over complete blocks. -/
def blocks : (fuel : Nat) → Words → (src : List UInt8) → Words × List UInt8
  | 0, state, src => (state, src)
  | fuel + 1, state, src =>
      if 64 ≤ src.length then blocks fuel (transform state (src.take 64)) (src.drop 64)
      else (state, src)

/-- `_SHA256_Update`. -/
def update (ctx : Sha256Ctx) (src : List UInt8) : Sha256Ctx :=
  if src.length = 0 then ctx
  else
    let r := ctx.buffered
    let count := ctx.count + (UInt64.ofNat src.length <<< 3)
    if src.length < 64 - r then { ctx with count, buf := copy ctx.buf r src }
    else
      let buf := copy ctx.buf r (src.take (64 - r))
      let state := transform ctx.state buf
      let src := src.drop (64 - r)
      let (state, src) := blocks src.length state src
      { state, count, buf := copy buf 0 src }

/-- `SHA256_Pad`. -/
def addPadding (ctx : Sha256Ctx) : Sha256Ctx :=
  let r := ctx.buffered
  let (state, buf) :=
    if r < 56 then (ctx.state, copy ctx.buf r (pad.take (56 - r)))
    else
      let buf := copy ctx.buf r (pad.take (64 - r))
      (transform ctx.state buf, copy buf 0 (List.replicate 56 0))
  let buf := copy buf 56 (be64enc ctx.count)
  { ctx with state := transform state buf, buf }

/-- `_SHA256_Final`. -/
def final (ctx : Sha256Ctx) : List UInt8 × Sha256Ctx :=
  let ctx := ctx.addPadding
  (be32encVect ctx.state, ctx)

/-- `SHA256_Buf`; the context is not set up before. -/
def sha256Buf (ctx : Sha256Ctx) (input : List UInt8) : List UInt8 :=
  (ctx.sha256Init.update input).final.1

/-! ## What a context holds -/

/-- A context that was given a message. -/
structure Holds (ctx : Sha256Ctx) (message : List UInt8) : Prop where
  state : ctx.state = (after message).1
  count : ctx.count = .ofNat (8 * message.length)
  length_buf : ctx.buf.length = 64
  buf : ctx.buf.take (message.length % 64) = (after message).2

section

variable {ctx : Sha256Ctx} {message src : List UInt8} {buf : List UInt8} {i : Nat}

theorem length_copy (h : i + src.length ≤ buf.length) : (copy buf i src).length = buf.length := by
  simp only [copy, List.length_append, List.length_take, List.length_drop]
  omega

theorem take_copy (src : List UInt8) (h : i ≤ buf.length) : (copy buf i src).take (i + src.length) = buf.take i ++ src := by
  rw [copy]
  exact List.take_left' (by rw [List.length_append, List.length_take, Nat.min_eq_left h])

theorem copy_full (h : i + src.length = buf.length) : copy buf i src = buf.take i ++ src := by
  rw [copy, List.drop_eq_nil_of_le (Nat.le_of_eq h.symm), List.append_nil]

theorem length_after (message : List UInt8) : (after message).2.length = message.length % 64 := by
  have hlen : (after message).2.length = (([] : List UInt8).length + message.length) % chain.size :=
    Chain.length_absorb chain.size_pos
  rw [hlen, List.length_nil, Nat.zero_add]
  rfl

theorem Holds.buffered (h : ctx.Holds message) : ctx.buffered = message.length % 64 := by
  have hmask : (0x3f : UInt64).toNat = 2 ^ 6 - 1 := rfl
  rw [Sha256Ctx.buffered, h.count, UInt64.toNat_and, hmask, Nat.and_two_pow_sub_one_eq_mod,
    UInt64.toNat_shiftRight, UInt64.toNat_ofNat']
  simp only [UInt64.reduceToNat, Nat.shiftRight_eq_div_pow, Nat.reduceMod, Nat.reducePow]
  omega

theorem count_add (m n : Nat) :
    UInt64.ofNat (8 * m) + (UInt64.ofNat n <<< 3) = .ofNat (8 * (m + n)) := by
  apply UInt64.toNat_inj.mp
  simp only [UInt64.toNat_add, UInt64.toNat_shiftLeft, UInt64.toNat_ofNat', UInt64.reduceToNat,
    Nat.shiftLeft_eq, Nat.reduceMod, Nat.reducePow]
  omega

/-- The loop leaves less than a block. -/
theorem blocks_eq {fuel : Nat} (state : Words) (hfuel : src.length ≤ fuel) :
    (blocks fuel state src).2.length < 64 ∧ chain.absorb (state, []) src = blocks fuel state src := by
  induction fuel generalizing state src with
  | zero =>
      obtain rfl : src = [] := List.length_eq_zero_iff.mp (Nat.le_zero.mp hfuel)
      exact ⟨Nat.succ_pos 63, rfl⟩
  | succ fuel ih =>
      rw [blocks]
      split_ifs with h
      · have hblock : (src.take 64).length = chain.size := by
          rw [List.length_take]
          exact Nat.min_eq_left h
        have hdrop : (src.drop 64).length ≤ fuel := by
          rw [List.length_drop]
          omega
        obtain ⟨hlt, heq⟩ := ih (transform state (src.take 64)) hdrop
        refine ⟨hlt, ?_⟩
        rw [← heq, ← List.take_append_drop 64 src, Chain.absorb_append, Chain.absorb_block hblock,
          List.take_append_drop]
        rfl
      · have hlt : ([] : List UInt8).length + src.length < chain.size := by
          rw [List.length_nil, Nat.zero_add]
          exact Nat.lt_of_not_le h
        exact ⟨Nat.lt_of_not_le h, Chain.absorb_of_lt hlt⟩

/-- **A piece of a message is taken**, wherever it is cut. -/
theorem Holds.update (h : ctx.Holds message) (src : List UInt8) :
    (ctx.update src).Holds (message ++ src) := by
  rw [Sha256Ctx.update]
  by_cases hnil : src.length = 0
  · rw [if_pos hnil, List.length_eq_zero_iff.mp hnil, List.append_nil]
    exact h
  rw [if_neg hnil]
  simp only [h.buffered]
  have hlen : (message ++ src).length = message.length + src.length := List.length_append
  have hcount : ctx.count + (UInt64.ofNat src.length <<< 3) = .ofNat (8 * (message ++ src).length) := by
    rw [h.count, count_add, hlen]
  have hafter : after (message ++ src) = chain.absorb ((after message).1, (after message).2) src :=
    Chain.absorb_append
  have htail := length_after message
  have hpos : message.length % 64 < 64 := Nat.mod_lt _ (by decide)
  have hbuf := h.length_buf
  by_cases hfits : src.length < 64 - message.length % 64
  · rw [if_pos hfits]
    have hfits' : (after message).2.length + src.length < chain.size := by
      rw [htail]
      exact Nat.add_lt_of_lt_sub' hfits
    have hmod : (message ++ src).length % 64 = message.length % 64 + src.length := by
      rw [hlen]
      omega
    rw [Chain.absorb_of_lt hfits'] at hafter
    refine ⟨?_, hcount, ?_, ?_⟩
    · rw [hafter]
      exact h.state
    · rw [length_copy (by omega), hbuf]
    · rw [hafter, hmod, take_copy src (by omega), h.buf]
  · rw [if_neg hfits]
    generalize hcut : 64 - message.length % 64 = cut at *
    have htake : (src.take cut).length = cut := by
      rw [List.length_take]
      omega
    have hblock : copy ctx.buf (message.length % 64) (src.take cut) = (after message).2 ++ src.take cut := by
      rw [copy_full (by omega), h.buf]
    have hne : src.take cut ≠ [] := List.ne_nil_of_length_pos (by omega)
    have hfull : (after message).2.length + (src.take cut).length = chain.size := by
      rw [htail, htake, ← hcut]
      exact Nat.add_sub_cancel' (Nat.le_of_lt hpos)
    obtain ⟨hrest, hblocks⟩ := blocks_eq (transform ctx.state ((after message).2 ++ src.take cut))
      (Nat.le_refl (src.drop cut).length)
    have hall : after (message ++ src) = blocks (src.drop cut).length
        (transform ctx.state ((after message).2 ++ src.take cut)) (src.drop cut) := by
      rw [hafter, ← List.take_append_drop cut src, Chain.absorb_append, Chain.absorb_of_eq hne hfull,
        List.take_append_drop, ← hblocks, h.state]
      rfl
    have hlast := length_after (message ++ src)
    rw [hall] at hlast
    have hlength : ((after message).2 ++ src.take cut).length = 64 := by
      rw [List.length_append]
      exact hfull
    rw [hblock]
    refine ⟨?_, hcount, ?_, ?_⟩
    · rw [hall]
    · rw [length_copy (by omega), hlength]
    · have hzero := take_copy (blocks (src.drop cut).length
        (transform ctx.state ((after message).2 ++ src.take cut)) (src.drop cut)).2
        (Nat.zero_le ((after message).2 ++ src.take cut).length)
      rw [Nat.zero_add, List.take_zero, List.nil_append] at hzero
      rw [← hlast, hzero, hall]

theorem holds_init (h : ctx.buf.length = 64) : ctx.sha256Init.Holds [] :=
  ⟨rfl, rfl, h, rfl⟩

theorem Holds.updates (h : ctx.Holds message) (pieces : List (List UInt8)) :
    (pieces.foldl Sha256Ctx.update ctx).Holds (message ++ pieces.flatten) := by
  induction pieces generalizing ctx message with
  | nil => simpa using h
  | cons src pieces ih =>
      rw [List.foldl_cons, List.flatten_cons, ← List.append_assoc]
      exact ih (h.update src)

/-! ## The padding -/

theorem length_be64enc (x : UInt64) : (be64enc x).length = 8 := rfl

theorem take_pad {n : Nat} (h : n ≤ 63) : pad.take (n + 1) = 0x80 :: List.replicate n 0 := by
  rw [pad, List.take_succ_cons, List.take_replicate, Nat.min_eq_left h]

theorem padding_of_lt {n : Nat} (h : n % 64 < 56) :
    padding n = pad.take (56 - n % 64) ++ be64enc (.ofNat (8 * n)) := by
  have hzeros : (119 - n % 64) % 64 = 55 - n % 64 := by omega
  have hlen : 56 - n % 64 = 55 - n % 64 + 1 := by omega
  rw [padding, hzeros, hlen, take_pad (by omega), List.cons_append]

theorem padding_of_le {n : Nat} (h : 56 ≤ n % 64) :
    padding n = pad.take (64 - n % 64) ++ (List.replicate 56 0 ++ be64enc (.ofNat (8 * n))) := by
  have hzeros : (119 - n % 64) % 64 = 63 - n % 64 + 56 := by omega
  have hlen : 64 - n % 64 = 63 - n % 64 + 1 := by omega
  rw [padding, hzeros, hlen, take_pad (by omega), List.replicate_add, List.cons_append, List.append_assoc]

theorem length_padding (n : Nat) : 64 ∣ n + (padding n).length := by
  simp only [padding, List.length_cons, List.length_append, List.length_replicate, length_be64enc]
  omega

/-- What the padded message leaves. -/
theorem sha256_eq (message : List UInt8) :
    sha256 message = be32encVect (chain.absorb (after message) (padding message.length)).1 := by
  have hwhole : chain.size ∣ (message ++ padding message.length).length := by
    rw [List.length_append]
    exact length_padding message.length
  have hsame : standard = chain := by
    rw [standard, chain, show transform = compress from funext₂ transform_eq]
  rw [after, ← Chain.absorb_append, Chain.absorb_whole hwhole, sha256, hsame]
  rfl

theorem length_fill {n : Nat} (h : n ≤ 64) : (pad.take n).length = n := by
  rw [List.length_take]
  exact Nat.min_eq_left h

/-- The two ways of the padding. -/
theorem Holds.addPadding (h : ctx.Holds message) :
    ctx.addPadding.state = (chain.absorb (after message) (padding message.length)).1 ∧
      ctx.addPadding.buf.length = 64 := by
  have htail := length_after message
  have hpos : message.length % 64 < 64 := Nat.mod_lt _ (by decide)
  have hbuf := h.length_buf
  have hcount := length_be64enc (.ofNat (8 * message.length))
  rw [Sha256Ctx.addPadding]
  simp only [h.buffered, h.count, h.state]
  by_cases hlt : message.length % 64 < 56
  · have hfill := length_fill (show 56 - message.length % 64 ≤ 64 by omega)
    rw [if_pos hlt, padding_of_lt hlt]
    have hcopy : (copy ctx.buf (message.length % 64) (pad.take (56 - message.length % 64))).take 56 =
        (after message).2 ++ pad.take (56 - message.length % 64) := by
      have hle : message.length % 64 ≤ ctx.buf.length := by omega
      have htake := take_copy (pad.take (56 - message.length % 64)) hle
      rw [hfill, h.buf] at htake
      rw [← htake]
      congr 1
      omega
    have hlen : (copy ctx.buf (message.length % 64) (pad.take (56 - message.length % 64))).length = 64 := by
      rw [length_copy (by omega), hbuf]
    have hfull : (after message).2.length +
        (pad.take (56 - message.length % 64) ++ be64enc (.ofNat (8 * message.length))).length =
          chain.size := by
      rw [htail, List.length_append, hfill, hcount]
      simp only [chain]
      omega
    have hend : copy (copy ctx.buf (message.length % 64) (pad.take (56 - message.length % 64))) 56
        (be64enc (.ofNat (8 * message.length))) = (after message).2 ++
          (pad.take (56 - message.length % 64) ++ be64enc (.ofNat (8 * message.length))) := by
      rw [copy_full (i := 56) (by omega), hcopy, List.append_assoc]
    rw [Chain.absorb_of_eq (by simp [be64enc]) hfull]
    simp only [hend]
    exact ⟨rfl, by rw [List.length_append]; exact hfull⟩
  · have hle : 56 ≤ message.length % 64 := Nat.le_of_not_lt hlt
    have hfill := length_fill (show 64 - message.length % 64 ≤ 64 by omega)
    rw [if_neg hlt, padding_of_le hle]
    have hblock : copy ctx.buf (message.length % 64) (pad.take (64 - message.length % 64)) =
        (after message).2 ++ pad.take (64 - message.length % 64) := by
      rw [copy_full (by omega), h.buf]
    have hfull : (after message).2.length + (pad.take (64 - message.length % 64)).length = chain.size := by
      rw [htail, hfill]
      simp only [chain]
      omega
    have hne : pad.take (64 - message.length % 64) ≠ [] := List.ne_nil_of_length_pos (by omega)
    have hlen : ((after message).2 ++ pad.take (64 - message.length % 64)).length = 64 := by
      rw [List.length_append]
      exact hfull
    have hlast : (List.replicate 56 0 ++ be64enc (.ofNat (8 * message.length))).length = chain.size := rfl
    have hend : copy (copy ((after message).2 ++ pad.take (64 - message.length % 64)) 0
        (List.replicate 56 0)) 56 (be64enc (.ofNat (8 * message.length))) =
          List.replicate 56 0 ++ be64enc (.ofNat (8 * message.length)) := by
      generalize (after message).2 ++ pad.take (64 - message.length % 64) = block at hlen
      have htake := take_copy (List.replicate 56 0) (Nat.zero_le block.length)
      rw [List.length_replicate, List.take_zero, List.nil_append] at htake
      have hlen' : (copy block 0 (List.replicate 56 0)).length = 64 := by
        rw [length_copy (by rw [hlen]; decide), hlen]
      rw [copy_full (i := 56) (by omega), htake]
    rw [Chain.absorb_append, Chain.absorb_of_eq hne hfull, Chain.absorb_block hlast]
    simp only [hblock, hend]
    exact ⟨rfl, hlast⟩

theorem Holds.digest (h : ctx.Holds message) :
    ctx.final.1 = sha256 message ∧ ctx.final.2.buf.length = 64 := by
  obtain ⟨hstate, hlen⟩ := h.addPadding
  exact ⟨by rw [sha256_eq, ← hstate]; rfl, hlen⟩

/-- **The digest of a message that is given in pieces** is SHA-256 of the whole message. -/
theorem final_eq (h : ctx.buf.length = 64) (pieces : List (List UInt8)) :
    (pieces.foldl Sha256Ctx.update ctx.sha256Init).final.1 = sha256 pieces.flatten :=
  ((holds_init h).updates pieces).digest.1

end

/-- A message in two pieces, in a context that is not set up. -/
theorem final_eq_two :
    ([[1], [2, 3]].foldl Sha256Ctx.update
      (⟨initialState, 0, List.replicate 64 0⟩ : Sha256Ctx).sha256Init).final.1 = sha256 [1, 2, 3] :=
  final_eq rfl [[1], [2, 3]]

end Sha256Ctx

end Sha256

end XLArig
