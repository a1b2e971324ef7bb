import Mathlib.Tactic.IntervalCases

/-!
# XLArig.Panthera.Transform

The compression function of `crypto/randomx/panthera/sha256`.  Instead of moving the eight words in
each round, the code lets the names of the registers go round, and it extends the schedule by
sixteen words after each sixteen rounds.
-/

namespace XLArig

namespace Sha256

theorem neZero_words : NeZero 8 := ⟨by decide⟩

attribute [local instance] neZero_words

/-! ## The compression function -/

abbrev Words := Vector UInt32 8

/-- `be32dec`. -/
def be32dec (p : List UInt8) : UInt32 :=
  (p.getD 3 0).toUInt32 + ((p.getD 2 0).toUInt32 <<< 8) + ((p.getD 1 0).toUInt32 <<< 16) +
    ((p.getD 0 0).toUInt32 <<< 24)

/-- `be32enc`. -/
def be32enc (x : UInt32) : List UInt8 :=
  [(x >>> 24).toUInt8, (x >>> 16).toUInt8, (x >>> 8).toUInt8, x.toUInt8]

/-- `be64enc`. -/
def be64enc (x : UInt64) : List UInt8 :=
  [(x >>> 56).toUInt8, (x >>> 48).toUInt8, (x >>> 40).toUInt8, (x >>> 32).toUInt8,
    (x >>> 24).toUInt8, (x >>> 16).toUInt8, (x >>> 8).toUInt8, x.toUInt8]

/-- `be32enc_vect` of eight words. -/
def be32encVect (src : Words) : List UInt8 := src.toList.flatMap be32enc

def krnd : Array UInt32 := #[
  0x428a2f98, 0x71374491, 0xb5c0fbcf, 0xe9b5dba5, 0x3956c25b, 0x59f111f1, 0x923f82a4, 0xab1c5ed5,
  0xd807aa98, 0x12835b01, 0x243185be, 0x550c7dc3, 0x72be5d74, 0x80deb1fe, 0x9bdc06a7, 0xc19bf174,
  0xe49b69c1, 0xefbe4786, 0x0fc19dc6, 0x240ca1cc, 0x2de92c6f, 0x4a7484aa, 0x5cb0a9dc, 0x76f988da,
  0x983e5152, 0xa831c66d, 0xb00327c8, 0xbf597fc7, 0xc6e00bf3, 0xd5a79147, 0x06ca6351, 0x14292967,
  0x27b70a85, 0x2e1b2138, 0x4d2c6dfc, 0x53380d13, 0x650a7354, 0x766a0abb, 0x81c2c92e, 0x92722c85,
  0xa2bfe8a1, 0xa81a664b, 0xc24b8b70, 0xc76c51a3, 0xd192e819, 0xd6990624, 0xf40e3585, 0x106aa070,
  0x19a4c116, 0x1e376c08, 0x2748774c, 0x34b0bcb5, 0x391c0cb3, 0x4ed8aa4a, 0x5b9cca4f, 0x682e6ff3,
  0x748f82ee, 0x78a5636f, 0x84c87814, 0x8cc70208, 0x90befffa, 0xa4506ceb, 0xbef9a3f7, 0xc67178f2]

def ch (x y z : UInt32) : UInt32 := (x &&& (y ^^^ z)) ^^^ z

def maj (x y z : UInt32) : UInt32 := (x &&& (y ||| z)) ||| (y &&& z)

def rotr (x n : UInt32) : UInt32 := (x >>> n) ||| (x <<< (32 - n))

/-- `S0`, `S1`. -/
def bigSigma0 (x : UInt32) : UInt32 := rotr x 2 ^^^ rotr x 13 ^^^ rotr x 22

def bigSigma1 (x : UInt32) : UInt32 := rotr x 6 ^^^ rotr x 11 ^^^ rotr x 25

/-- `s0`, `s1`. -/
def sigma0 (x : UInt32) : UInt32 := rotr x 7 ^^^ rotr x 18 ^^^ (x >>> 3)

def sigma1 (x : UInt32) : UInt32 := rotr x 17 ^^^ rotr x 19 ^^^ (x >>> 10)

/-- `RND`, on the registers that are named. -/
def rnd (S : Words) (a b c d e f g h : Fin 8) (k : UInt32) : Words :=
  let S := S.set h (S[h] + (bigSigma1 S[e] + ch S[e] S[f] S[g] + k))
  let S := S.set d (S[d] + S[h])
  S.set h (S[h] + (bigSigma0 S[a] + maj S[a] S[b] S[c]))

/-- `RNDr`: instead of the words, the names of the registers go round. -/
def rndr (S : Words) (W : Array UInt32) (i ii : Nat) : Words :=
  rnd S (.ofNat 8 (64 - i)) (.ofNat 8 (65 - i)) (.ofNat 8 (66 - i)) (.ofNat 8 (67 - i))
    (.ofNat 8 (68 - i)) (.ofNat 8 (69 - i)) (.ofNat 8 (70 - i)) (.ofNat 8 (71 - i))
    (W.getD (i + ii) 0 + krnd.getD (i + ii) 0)

/-- `MSCH`; the words of the schedule are written one after the other. -/
def msch (W : Array UInt32) (ii i : Nat) : Array UInt32 :=
  W.push (sigma1 (W.getD (i + ii + 14) 0) + W.getD (i + ii + 9) 0 + sigma0 (W.getD (i + ii + 1) 0) +
    W.getD (i + ii) 0)

/-- One round of the loop of `SHA256_Transform`. -/
def mix (x : Words × Array UInt32) (i : Nat) : Words × Array UInt32 :=
  let S := (List.range 16).foldl (fun S k => rndr S x.2 k i) x.1
  if i = 48 then (S, x.2) else (S, (List.range 16).foldl (fun W k => msch W k i) x.2)

/-- `SHA256_Transform`. -/
def transform (state : Words) (block : List UInt8) : Words :=
  let W := ((List.range 16).map fun i => be32dec (block.drop (4 * i))).toArray
  let (S, _) := [0, 16, 32, 48].foldl mix (state, W)
  state.zipWith (· + ·) S

/-! ## The standard -/

/-- The schedule of the standard. -/
def schedule (block : List UInt8) (t : Nat) : UInt32 :=
  if t < 16 then be32dec (block.drop (4 * t))
  else sigma1 (schedule block (t - 2)) + schedule block (t - 7) + sigma0 (schedule block (t - 15)) +
    schedule block (t - 16)

/-- One step of the standard: the words move on. -/
def work (v : Words) (k : UInt32) : Words :=
  let t1 := v[7] + (bigSigma1 v[4] + ((v[4] &&& v[5]) ^^^ (~~~v[4] &&& v[6])) + k)
  let t2 := bigSigma0 v[0] + ((v[0] &&& v[1]) ^^^ (v[0] &&& v[2]) ^^^ (v[1] &&& v[2]))
  #v[t1 + t2, v[0], v[1], v[2], v[3] + t1, v[4], v[5], v[6]]

/-- The compression function of the standard. -/
def compress (state : Words) (block : List UInt8) : Words :=
  state.zipWith (· + ·)
    ((List.range 64).foldl (fun v t => work v (schedule block t + krnd.getD t 0)) state)

theorem ch_eq (x y z : UInt32) : ch x y z = (x &&& y) ^^^ (~~~x &&& z) := by
  apply UInt32.toBitVec_inj.mp
  ext i
  simp only [ch, UInt32.toBitVec_xor, UInt32.toBitVec_and, UInt32.toBitVec_not, BitVec.getElem_xor,
    BitVec.getElem_and, BitVec.getElem_not]
  generalize x.toBitVec[i] = a
  generalize y.toBitVec[i] = b
  generalize z.toBitVec[i] = c
  revert a b c
  decide

theorem maj_eq (x y z : UInt32) : maj x y z = (x &&& y) ^^^ (x &&& z) ^^^ (y &&& z) := by
  apply UInt32.toBitVec_inj.mp
  ext i
  simp only [maj, UInt32.toBitVec_xor, UInt32.toBitVec_and, UInt32.toBitVec_or, BitVec.getElem_xor,
    BitVec.getElem_and, BitVec.getElem_or]
  generalize x.toBitVec[i] = a
  generalize y.toBitVec[i] = b
  generalize z.toBitVec[i] = c
  revert a b c
  decide

/-! ## The registers -/

/-- The registers, under the names they have before round `i`. -/
def view (i : Nat) (S : Words) : Words := .ofFn fun k => S[Fin.ofNat 8 (k.val + 64 - i)]

theorem ofNat_mod {m n : Nat} (h : m % 8 = n % 8) : Fin.ofNat 8 m = Fin.ofNat 8 n := Fin.ext h

theorem view_mod {i : Nat} (hi : i ≤ 16) (S : Words) : view (i % 8) S = view i S := by
  refine congrArg Vector.ofFn (funext fun k => congrArg (S[·]) (ofNat_mod ?_))
  omega

theorem view_rnd {i : Nat} (hi : i < 8) (S : Words) (k : UInt32) :
    view (i + 1) (rnd S (.ofNat 8 (64 - i)) (.ofNat 8 (65 - i)) (.ofNat 8 (66 - i)) (.ofNat 8 (67 - i))
      (.ofNat 8 (68 - i)) (.ofNat 8 (69 - i)) (.ofNat 8 (70 - i)) (.ofNat 8 (71 - i)) k) =
      work (view i S) k := by
  simp only [rnd, work, ← ch_eq, ← maj_eq]
  obtain ⟨⟨l⟩, hl⟩ := S
  match l, hl with
  | [a, b, c, d, e, f, g, h], _ => interval_cases i <;> rfl

/-- The names go round instead of the words. -/
theorem view_rndr {i : Nat} (hi : i < 16) (S : Words) (W : Array UInt32) (ii : Nat) :
    view (i + 1) (rndr S W i ii) = work (view i S) (W.getD (i + ii) 0 + krnd.getD (i + ii) 0) := by
  have hname : ∀ n, Fin.ofNat 8 (64 + n - i) = Fin.ofNat 8 (64 + n - i % 8) := fun n => ofNat_mod (by omega)
  have hround := view_rnd (Nat.mod_lt i (by decide)) S (W.getD (i + ii) 0 + krnd.getD (i + ii) 0)
  rw [view_mod (Nat.le_of_lt hi), ← hname 0, ← hname 1, ← hname 2, ← hname 3, ← hname 4, ← hname 5,
    ← hname 6, ← hname 7] at hround
  rw [← hround, ← view_mod hi, ← view_mod (i := i % 8 + 1) (by omega)]
  congr 1
  omega

/-- What the schedule has so far. -/
def Scheduled (block : List UInt8) (W : Array UInt32) : Prop :=
  ∀ t < W.size, W.getD t 0 = schedule block t

theorem Scheduled.msch {block : List UInt8} {W : Array UInt32} {i k : Nat} (h : Scheduled block W)
    (hsize : W.size = i + k + 16) :
    Scheduled block (msch W k i) ∧ (Sha256.msch W k i).size = i + (k + 1) + 16 := by
  refine ⟨fun t ht => ?_, by rw [Sha256.msch, Array.size_push]; omega⟩
  rw [Sha256.msch, Array.size_push] at ht
  by_cases hlast : t = W.size
  · have hnot : ¬ t < 16 := by omega
    have e2 : i + k + 14 = t - 2 := by omega
    have e7 : i + k + 9 = t - 7 := by omega
    have e15 : i + k + 1 = t - 15 := by omega
    have e16 : i + k = t - 16 := by omega
    rw [schedule, if_neg hnot, ← h (t - 2) (by omega), ← h (t - 7) (by omega), ← h (t - 15) (by omega),
      ← h (t - 16) (by omega), Sha256.msch, e2, e7, e15, e16]
    simp [Array.getD, hlast]
  · have hlt : t < W.size := by omega
    have hlt' : t < W.size + 1 := by omega
    rw [← h t hlt, Sha256.msch]
    simp [Array.getD, hlt, hlt', Array.getElem_push_lt hlt]

theorem Scheduled.mschs {block : List UInt8} {W : Array UInt32} {i : Nat} (h : Scheduled block W)
    (hsize : W.size = i + 16) (n : Nat) :
    Scheduled block ((List.range n).foldl (fun W k => Sha256.msch W k i) W) ∧
      ((List.range n).foldl (fun W k => Sha256.msch W k i) W).size = i + n + 16 := by
  induction n with
  | zero => exact ⟨h, hsize⟩
  | succ n ih =>
      rw [List.range_succ, List.foldl_append]
      exact ih.1.msch ih.2

theorem view_zero (S : Words) : view 0 S = S := by
  apply Vector.ext
  intro k hk
  have hname : (k + 64) % 8 = k := by omega
  simp [view, hname]

/-- Sixteen rounds. -/
theorem view_rndrs {block : List UInt8} {W : Array UInt32} {i : Nat} (h : Scheduled block W)
    (hsize : W.size = i + 16) (S : Words) {n : Nat} (hn : n ≤ 16) :
    view n ((List.range n).foldl (fun S k => rndr S W k i) S) =
      (List.range n).foldl (fun v k => work v (schedule block (k + i) + krnd.getD (k + i) 0)) S := by
  induction n with
  | zero => exact view_zero S
  | succ n ih =>
      rw [List.range_succ, List.foldl_append, List.foldl_append, ← ih (by omega)]
      simp only [List.foldl_cons, List.foldl_nil]
      rw [← h (n + i) (by omega)]
      exact view_rndr hn _ W i

/-- A round of the loop. -/
theorem mix_eq {block : List UInt8} {W : Array UInt32} {i : Nat} (h : Scheduled block W)
    (hsize : W.size = i + 16) (S : Words) :
    (mix (S, W) i).1 =
        (List.range 16).foldl (fun v k => work v (schedule block (k + i) + krnd.getD (k + i) 0)) S ∧
      (i ≠ 48 → Scheduled block (mix (S, W) i).2 ∧ (mix (S, W) i).2.size = i + 16 + 16) := by
  have hview := view_rndrs h hsize S (Nat.le_refl 16)
  have hround : (16 : Nat) % 8 = 0 := rfl
  rw [← view_mod (Nat.le_refl 16), hround, view_zero] at hview
  rw [mix]
  simp only [hview]
  split_ifs with hlast
  · exact ⟨rfl, fun hne => absurd hlast hne⟩
  · exact ⟨rfl, fun _ => h.mschs hsize 16⟩

/-- **The transform is the compression function of the standard.** -/
theorem transform_eq (state : Words) (block : List UInt8) : transform state block = compress state block := by
  have hfirst : Scheduled block ((List.range 16).map fun i => be32dec (block.drop (4 * i))).toArray ∧
      ((List.range 16).map fun i => be32dec (block.drop (4 * i))).toArray.size = 0 + 16 := by
    refine ⟨fun t ht => ?_, by simp⟩
    have hlt : t < 16 := by simpa using ht
    rw [schedule, if_pos hlt]
    simp [Array.getD, hlt]
  have hall : List.range 64 = (List.range 16).map (· + 0) ++ (List.range 16).map (· + 16) ++
      (List.range 16).map (· + 32) ++ (List.range 16).map (· + 48) := rfl
  rw [transform, compress, hall]
  simp only [List.foldl_append, List.foldl_map, List.foldl_cons, List.foldl_nil]
  obtain ⟨hfirst, hsize⟩ := hfirst
  generalize ((List.range 16).map fun i => be32dec (block.drop (4 * i))).toArray = W at *
  obtain ⟨h1, hW1⟩ := mix_eq hfirst hsize state
  obtain ⟨hW1, hsize1⟩ := hW1 (by decide)
  obtain ⟨h2, hW2⟩ := mix_eq hW1 hsize1 (mix (state, W) 0).1
  obtain ⟨hW2, hsize2⟩ := hW2 (by decide)
  obtain ⟨h3, hW3⟩ := mix_eq hW2 hsize2 (mix (mix (state, W) 0) 16).1
  obtain ⟨hW3, hsize3⟩ := hW3 (by decide)
  obtain ⟨h4, -⟩ := mix_eq hW3 hsize3 (mix (mix (mix (state, W) 0) 16) 32).1
  rw [← h1, ← h2, ← h3, ← h4]

end Sha256

end XLArig
