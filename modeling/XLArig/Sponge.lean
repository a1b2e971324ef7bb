import Mathlib.Data.List.Basic
import Mathlib.Logic.Function.Iterate

/-!
# XLArig.Sponge

A sponge: bytes are added to the front part of a state, the state is permuted each time that part
is full, and bytes are read from the same part.

* `absorb` — one byte after the other, so that it does not matter how a message is cut;
* `finish` — the padding, which is added in two steps;
* `squeeze` — one byte after the other.

The textbook's sponge takes whole blocks of a padded message (`state`) and reads each byte from a
power of the permutation (`hash`); `finish_absorb` and `hash_eq` say that it is the same.
-/

namespace XLArig

/-- A state with its permutation, and how many bytes are used between two permutations. -/
structure Sponge (S : Type*) where
  zero : S
  addByte : UInt8 → Nat → S → S
  byte : S → Nat → UInt8
  permute : S → S
  rate : Nat
  add_zero : ∀ i s, addByte 0 i s = s
  add_add : ∀ a b i s, addByte b i (addByte a i s) = addByte (a ^^^ b) i s
  rate_pos : 0 < rate

namespace Sponge

variable {S : Type*} (P : Sponge S)

/-! ## Absorbing -/

/-- One byte is added at a position. -/
def step (x : S × Nat) (b : UInt8) : S × Nat :=
  if x.2 + 1 = P.rate then (P.permute (P.addByte b x.2 x.1), 0) else (P.addByte b x.2 x.1, x.2 + 1)

def absorb (x : S × Nat) (bytes : List UInt8) : S × Nat := bytes.foldl P.step x

/-- Bytes are added next to each other, without a permutation. -/
def addBytes : List UInt8 → Nat → S → S
  | [], _, s => s
  | b :: bytes, i, s => addBytes bytes (i + 1) (P.addByte b i s)

/-- `k` whole blocks. -/
def absorbBlocks : (k : Nat) → S → List UInt8 → S
  | 0, s, _ => s
  | k + 1, s, bytes =>
      absorbBlocks k (P.permute (P.addBytes (bytes.take P.rate) 0 s)) (bytes.drop P.rate)

variable {P} {s : S} {p i k : Nat} {x : S × Nat} {bytes bytes' : List UInt8} {suffix : UInt8}

@[simp] theorem absorb_nil : P.absorb x [] = x := rfl

@[simp] theorem absorb_cons {b : UInt8} : P.absorb x (b :: bytes) = P.absorb (P.step x b) bytes := rfl

/-- It does not matter how a message is cut. -/
theorem absorb_append : P.absorb x (bytes ++ bytes') = P.absorb (P.absorb x bytes) bytes' :=
  List.foldl_append

theorem addBytes_append :
    P.addBytes (bytes ++ bytes') i s = P.addBytes bytes' (i + bytes.length) (P.addBytes bytes i s) := by
  induction bytes generalizing i s with
  | nil => rfl
  | cons b bytes ih =>
      rw [List.cons_append, addBytes, addBytes, ih, List.length_cons, Nat.add_right_comm, Nat.add_assoc]

theorem addBytes_zeros (n : Nat) : P.addBytes (List.replicate n 0) i s = s := by
  induction n generalizing i with
  | zero => rfl
  | succ n ih => rw [List.replicate_succ, addBytes, P.add_zero, ih]

/-- Bytes that do not fill the block. -/
theorem absorb_of_lt (h : p + bytes.length < P.rate) :
    P.absorb (s, p) bytes = (P.addBytes bytes p s, p + bytes.length) := by
  induction bytes generalizing s p with
  | nil => rfl
  | cons b bytes ih =>
      rw [List.length_cons] at h
      have hstep : P.step (s, p) b = (P.addByte b p s, p + 1) := if_neg (by simp only; omega)
      rw [absorb_cons, hstep, ih (by omega), addBytes, List.length_cons, Nat.add_assoc, Nat.add_comm 1]

/-- Bytes that just fill the block. -/
theorem absorb_of_eq (hne : bytes ≠ []) (h : p + bytes.length = P.rate) :
    P.absorb (s, p) bytes = (P.permute (P.addBytes bytes p s), 0) := by
  obtain ⟨init, b, rfl⟩ := List.eq_nil_or_concat' bytes |>.resolve_left hne
  rw [List.length_append, List.length_singleton] at h
  have hstep : ∀ s, P.step (s, p + init.length) b = (P.permute (P.addByte b (p + init.length) s), 0) :=
    fun s => if_pos (by simp only; omega)
  have hinit : P.absorb (s, p) init = (P.addBytes init p s, p + init.length) :=
    absorb_of_lt (by omega)
  rw [absorb_append, hinit, absorb_cons, absorb_nil, hstep, addBytes_append]
  rfl

theorem absorb_snd_lt (h : x.2 < P.rate) : (P.absorb x bytes).2 < P.rate := by
  induction bytes generalizing x with
  | nil => exact h
  | cons b bytes ih =>
      rw [absorb_cons]
      apply ih
      unfold step
      split_ifs with hlast
      · exact P.rate_pos
      · simp only
        omega

/-- The position is that of the whole message. -/
theorem absorb_snd (h : x.2 < P.rate) : (P.absorb x bytes).2 = (x.2 + bytes.length) % P.rate := by
  induction bytes generalizing x with
  | nil => exact (Nat.mod_eq_of_lt h).symm
  | cons b bytes ih =>
      have hstep : (P.step x b).2 = (x.2 + 1) % P.rate := by
        unfold step
        split_ifs with hlast
        · rw [hlast, Nat.mod_self]
        · rw [Nat.mod_eq_of_lt (by omega)]
      rw [absorb_cons, ih (by rw [hstep]; exact Nat.mod_lt _ P.rate_pos), hstep, Nat.mod_add_mod,
        List.length_cons, Nat.add_assoc, Nat.add_comm 1]

/-- Whole blocks, and what is left. -/
theorem absorb_eq_blocks (h : k * P.rate ≤ bytes.length) :
    P.absorb (s, 0) bytes = P.absorb (P.absorbBlocks k s bytes, 0) (bytes.drop (k * P.rate)) := by
  induction k generalizing s bytes with
  | zero => simp [absorbBlocks]
  | succ k ih =>
      have hk : k * P.rate + P.rate ≤ bytes.length := by rwa [← Nat.succ_mul]
      have hpos := P.rate_pos
      have hlen : (bytes.take P.rate).length = P.rate := by
        rw [List.length_take]
        omega
      have hne : bytes.take P.rate ≠ [] := fun h => by
        rw [h, List.length_nil] at hlen
        omega
      have hrest : k * P.rate ≤ (bytes.drop P.rate).length := by
        rw [List.length_drop]
        omega
      have hfirst : P.absorb (s, 0) (bytes.take P.rate) =
          (P.permute (P.addBytes (bytes.take P.rate) 0 s), 0) :=
        absorb_of_eq hne (by omega)
      rw [← List.take_append_drop P.rate bytes, absorb_append, hfirst, ih hrest,
        List.take_append_drop, List.drop_drop, absorbBlocks, Nat.succ_mul, Nat.add_comm P.rate]

/-! ## The padding -/

variable (P)

/-- The suffix and the last bit; a suffix whose last bit is at the end of a block gets one more
permutation. -/
def finish (suffix : UInt8) (x : S × Nat) : S :=
  let s := P.addByte suffix x.2 x.1
  let s := if 0x80 ≤ suffix ∧ x.2 = P.rate - 1 then P.permute s else s
  P.permute (P.addByte 0x80 (P.rate - 1) s)

/-- What is put behind a message. -/
def padding (suffix : UInt8) (length : Nat) : List UInt8 :=
  if length % P.rate + 1 = P.rate then [suffix ^^^ 0x80]
  else suffix :: (List.replicate (P.rate - length % P.rate - 2) 0 ++ [0x80])

variable {P}

/-- A suffix that leaves the last bit free. -/
theorem finish_of_lt (hsuffix : suffix < 0x80) :
    P.finish suffix x = P.permute (P.addByte 0x80 (P.rate - 1) (P.addByte suffix x.2 x.1)) := by
  have hnot : ¬ (0x80 ≤ suffix ∧ x.2 = P.rate - 1) := fun h => by
    have hle := UInt8.le_iff_toNat_le.mp h.1
    have hlt := UInt8.lt_iff_toNat_lt.mp hsuffix
    omega
  unfold finish
  simp only [if_neg hnot]

theorem length_padding (hp : p < P.rate) : p + (P.padding suffix p).length = P.rate := by
  unfold padding
  rw [Nat.mod_eq_of_lt hp]
  split_ifs with hlast
  · exact hlast
  · simp only [List.length_cons, List.length_append, List.length_replicate, List.length_nil]
    omega

/-- The two steps of the padding fill the last block. -/
theorem finish_eq (hsuffix : suffix < 0x80) (hp : p < P.rate) :
    P.absorb (s, p) (P.padding suffix p) = (P.finish suffix (s, p), 0) := by
  rw [finish_of_lt hsuffix]
  unfold padding
  simp only [Nat.mod_eq_of_lt hp]
  split_ifs with hlast
  · have hend : P.rate - 1 = p := by omega
    rw [absorb_of_eq (by simp) (by simpa using hlast), hend, P.add_add]
    rfl
  · rw [absorb_of_eq (by simp) (by simp; omega), addBytes, addBytes_append, addBytes_zeros]
    have hend : p + 1 + (P.rate - p - 2) = P.rate - 1 := by omega
    rw [List.length_replicate, hend]
    rfl

/-- **The padded message fills whole blocks**, after which the state is the one that is squeezed. -/
theorem absorb_pad (hsuffix : suffix < 0x80) (bytes : List UInt8) :
    P.absorb (s, 0) (bytes ++ P.padding suffix bytes.length) =
      (P.finish suffix (P.absorb (s, 0) bytes), 0) := by
  have hposition : (P.absorb (s, 0) bytes).2 = bytes.length % P.rate := by
    rw [absorb_snd P.rate_pos, Nat.zero_add]
  have hpadding : P.padding suffix bytes.length = P.padding suffix (P.absorb (s, 0) bytes).2 := by
    rw [hposition, padding, padding, Nat.mod_mod]
  rw [absorb_append, hpadding]
  exact finish_eq hsuffix (absorb_snd_lt P.rate_pos)

/-! ## Squeezing -/

variable (P)

/-- The state after a padded message, block by block. -/
def state (suffix : UInt8) (message : List UInt8) : S :=
  let padded := message ++ P.padding suffix message.length
  P.absorbBlocks (padded.length / P.rate) P.zero padded

/-- The hash of a message: the bytes of the powers of the permutation. -/
def hash (suffix : UInt8) (n : Nat) (message : List UInt8) : List UInt8 :=
  (List.range n).map fun k =>
    P.byte (P.permute^[k / P.rate] (P.state suffix message)) (k % P.rate)

/-- One byte is read; the state is permuted first where all bytes are read. -/
def next (x : S × Nat) : UInt8 × (S × Nat) :=
  let x := if x.2 = P.rate then (P.permute x.1, 0) else x
  (P.byte x.1 x.2, (x.1, x.2 + 1))

def squeeze : Nat → S × Nat → List UInt8 × (S × Nat)
  | 0, x => ([], x)
  | n + 1, x =>
      let (b, x) := P.next x
      let (bytes, x) := squeeze n x
      (b :: bytes, x)

/-- The bytes of a state. -/
def bytesFrom (s : S) (i n : Nat) : List UInt8 := (List.range' i n).map (P.byte s)

variable {P}

theorem squeeze_add (m n : Nat) :
    P.squeeze (m + n) x =
      ((P.squeeze m x).1 ++ (P.squeeze n (P.squeeze m x).2).1, (P.squeeze n (P.squeeze m x).2).2) := by
  induction m generalizing x with
  | zero => simp [squeeze]
  | succ m ih =>
      rw [Nat.succ_add, squeeze, squeeze]
      simp only [ih, List.cons_append]

/-- The message and its padding, byte by byte. -/
theorem finish_absorb (hsuffix : suffix < 0x80) (message : List UInt8) :
    P.finish suffix (P.absorb (P.zero, 0) message) = P.state suffix message := by
  have hpad := absorb_pad (P := P) (s := P.zero) hsuffix message
  unfold state
  generalize message ++ P.padding suffix message.length = padded at *
  have hwhole : padded.length % P.rate = 0 := by
    have hposition : (P.absorb (P.zero, 0) padded).2 = (0 + padded.length) % P.rate :=
      absorb_snd P.rate_pos
    rw [hpad, Nat.zero_add] at hposition
    exact hposition.symm
  have hlen : padded.length / P.rate * P.rate = padded.length :=
    Nat.div_mul_cancel (Nat.dvd_of_mod_eq_zero hwhole)
  rw [absorb_eq_blocks (Nat.le_of_eq hlen), hlen, List.drop_length, absorb_nil] at hpad
  exact (congrArg Prod.fst hpad).symm

/-- As long as there are bytes, they are read as they are. -/
theorem squeeze_of_le {n : Nat} (h : p + n ≤ P.rate) :
    P.squeeze n (s, p) = (P.bytesFrom s p n, (s, p + n)) := by
  induction n generalizing p with
  | zero => rfl
  | succ n ih =>
      have hnext : P.next (s, p) = (P.byte s p, (s, p + 1)) := by
        rw [next, if_neg (by simp only; omega)]
      rw [squeeze]
      simp only [hnext, ih (show p + 1 + n ≤ P.rate by omega), bytesFrom, List.range'_succ, List.map_cons]
      rw [Nat.add_assoc, Nat.add_comm 1]

theorem squeeze_snd_le {n : Nat} (h : x.2 ≤ P.rate) : (P.squeeze n x).2.2 ≤ P.rate := by
  induction n generalizing x with
  | zero => exact h
  | succ n ih =>
      rw [squeeze]
      apply ih
      have hpos := P.rate_pos
      rw [next]
      simp only
      split_ifs with hfull
      · exact hpos
      · omega

/-- Where all are read, the next ones are those of the permuted state. -/
theorem squeeze_full {n : Nat} (hn : 0 < n) :
    P.squeeze n (s, P.rate) = P.squeeze n (P.permute s, 0) := by
  obtain ⟨n, rfl⟩ := Nat.exists_eq_succ_of_ne_zero (Nat.ne_of_gt hn)
  have hpos := P.rate_pos
  have hnext : P.next (s, P.rate) = P.next (P.permute s, 0) := by
    rw [next, next, if_pos rfl, if_neg (by simp only; omega)]
  rw [squeeze, squeeze, hnext]

/-- **Each byte is one of a power of the permutation.** -/
theorem squeeze_eq (n : Nat) (s : S) :
    (P.squeeze n (s, 0)).1 =
      (List.range n).map fun k => P.byte (P.permute^[k / P.rate] s) (k % P.rate) := by
  induction n using Nat.strongRecOn generalizing s with
  | ind n ih =>
      have hpos := P.rate_pos
      by_cases hn : n ≤ P.rate
      · rw [squeeze_of_le (by omega), bytesFrom, ← List.range_eq_range']
        refine List.map_congr_left fun k hk => ?_
        by_cases hk' : k < P.rate
        · rw [Nat.div_eq_of_lt hk', Nat.mod_eq_of_lt hk']
          rfl
        · have := List.mem_range.mp hk
          omega
      · obtain ⟨m, rfl⟩ := Nat.exists_eq_add_of_le (Nat.le_of_not_le hn)
        have hblock : P.squeeze P.rate (s, 0) = (P.bytesFrom s 0 P.rate, (s, P.rate)) := by
          rw [squeeze_of_le (by omega), Nat.zero_add]
        rw [squeeze_add, hblock, squeeze_full (by omega), List.range_add, List.map_append, List.map_map,
          ih m (by omega), bytesFrom, ← List.range_eq_range']
        refine congrArg₂ _ (List.map_congr_left fun k hk => ?_) (List.map_congr_left fun k _ => ?_)
        · rw [Nat.div_eq_of_lt (List.mem_range.mp hk), Nat.mod_eq_of_lt (List.mem_range.mp hk)]
          rfl
        · rw [Function.comp_apply, Nat.add_div_left _ hpos, Nat.add_mod_left, Function.iterate_succ_apply]

/-- **The hash of a sponge that takes and gives single bytes.** -/
theorem hash_eq (hsuffix : suffix < 0x80) (n : Nat) (message : List UInt8) :
    (P.squeeze n (P.finish suffix (P.absorb (P.zero, 0) message), 0)).1 = P.hash suffix n message := by
  rw [finish_absorb hsuffix, squeeze_eq]
  rfl

/-- A hash that fits into one block. -/
theorem hash_of_le {n : Nat} {message : List UInt8} (h : n ≤ P.rate) :
    P.hash suffix n message = P.bytesFrom (P.state suffix message) 0 n := by
  rw [bytesFrom, hash, ← List.range_eq_range']
  refine List.map_congr_left fun k hk => ?_
  by_cases hk' : k < P.rate
  · rw [Nat.div_eq_of_lt hk', Nat.mod_eq_of_lt hk']
    rfl
  · have := List.mem_range.mp hk
    omega

end Sponge

end XLArig
