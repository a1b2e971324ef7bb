import XLArig.Cvt
import XLArig.Memory
import XLArig.Traced

/-!
# XLArig.Cvt.Hex

`cvt_bin2hex` and `cvt_hex2bin` as they write their buffers, one note for each position.

* `run_decode` — the scan of `cvt_hex2bin` stores what `hex2bin` yields, and ends as a failed
  one where that yields nothing;
* `hex_exact` — text of hexadecimal digits, and no other, is decoded to the values of its
  pairs, and the text of bytes is decoded to them.
-/

namespace XLArig

namespace Cvt

open Traced

/-! ## The program -/

/-- Store a byte. -/
def put (i : Nat) (v : UInt8) : Traced Memory Nat Unit := Traced.write i (Function.update · i v)

/-- The character for a half of a byte: `38` lies between the digits and the letters, and
the mask is taken from the sign of `v - 10`. -/
def hexChar (v : UInt8) : UInt8 :=
  ((87 : UInt32) + v.toUInt32 + (((v.toUInt32 - 10) >>> 8) &&& ~~~(38 : UInt32))).toUInt8

/-- The loop of `cvt_bin2hex`, from the `i`-th byte on. -/
def writeDigits : Nat → List UInt8 → Traced Memory Nat Unit
  | _, [] => pure ()
  | i, b :: bin => do
      put (i * 2) (hexChar (b >>> 4))
      put (i * 2 + 1) (hexChar (b &&& 0xf))
      writeDigits (i + 1) bin

/-- The end of `cvt_bin2hex`: a zero behind the digits, if it fits. -/
def terminate (hexMaxlen pos : Nat) : Traced Memory Nat Unit :=
  if pos < hexMaxlen then put pos 0 else pure ()

/-- `cvt_bin2hex`, with whether the pointer it returns is not null. -/
def cvtBin2hex (hexMaxlen : Nat) (bin : List UInt8) : Traced Memory Nat Bool :=
  if bin.length ≥ (2 ^ 64 - 1) / 2 ∨ hexMaxlen < bin.length * 2 then pure false
  else do
    writeDigits 0 bin
    terminate hexMaxlen (bin.length * 2)
    pure true

/-- The locals of `cvt_hex2bin`. -/
structure Scan where
  hexPos : Nat
  binPos : Nat
  ret : Int
  acc : UInt8
  state : UInt8

/-- The loop of `cvt_hex2bin` on the text that is left.  `ignore`, `bin_len` and `hex_end` are
null in every call. -/
def scan (binMaxlen : Nat) : List UInt8 → Scan → Traced Memory Nat Scan
  | [], d => pure d
  | c :: hex, d =>
      match hexValue c with
      | none => pure d
      | some value =>
          if d.binPos ≥ binMaxlen then pure { d with ret := -1 }
          else if d.state = 0 then
            scan binMaxlen hex
              { d with acc := value * 16, state := ~~~d.state, hexPos := d.hexPos + 1 }
          else do
            put d.binPos (d.acc ||| value)
            scan binMaxlen hex
              { d with binPos := d.binPos + 1, state := ~~~d.state, hexPos := d.hexPos + 1 }

/-- What `cvt_hex2bin` returns after the loop. -/
def Scan.result (d : Scan) (hexLen : Nat) : Int :=
  let d := if d.state ≠ 0 then { d with hexPos := d.hexPos - 1, ret := -1 } else d
  if d.hexPos ≠ hexLen then -1 else d.ret

def cvtHex2bin (binMaxlen : Nat) (hex : List UInt8) : Traced Memory Nat Int := do
  let d ← scan binMaxlen hex { hexPos := 0, binPos := 0, ret := 0, acc := 0, state := 0 }
  pure (d.result hex.length)

/-- `Cvt::toHex` into a buffer. -/
def toHex (hexMaxlen : Nat) (bin : List UInt8) : Traced Memory Nat Bool :=
  cvtBin2hex hexMaxlen bin

/-- `Cvt::fromHex` into `bin`. -/
def fromHexBin (binMaxlen : Nat) (hex : List UInt8) : Traced Memory Nat Bool :=
  if hex.isEmpty then pure false
  else do
    let ret ← cvtHex2bin binMaxlen hex
    pure (ret == 0)

/-! ## Digits -/

/-- The digits in order, the letters in lower case. -/
def lowercase : List UInt8 := "0123456789abcdef".toUTF8.toList

/-- Two digits for each byte, the high half first. -/
def hexText (bin : List UInt8) : List UInt8 :=
  bin.flatMap fun b => [lowercase.getD (b.toNat / 16) 0, lowercase.getD (b.toNat % 16) 0]

/-- The value of a hexadecimal digit. -/
def digitValue (c : UInt8) : Nat :=
  if c ≤ 0x39 then c.toNat - 0x30
  else if c ≤ 0x46 then c.toNat - 0x41 + 10
  else c.toNat - 0x61 + 10

/-- The bytes that pairs of digits stand for. -/
def pairs : List UInt8 → List UInt8
  | c :: d :: hex => UInt8.ofNat (digitValue c * 16 + digitValue d) :: pairs hex
  | _ => []

theorem hexChar_high : ∀ b : UInt8,
    hexChar (b >>> 4) = lowercase.getD (b.toNat / 16) 0 := by decide +kernel

theorem hexChar_low : ∀ b : UInt8,
    hexChar (b &&& 0xf) = lowercase.getD (b.toNat % 16) 0 := by decide +kernel

/-- The masks find the value of every digit, and nothing in other characters. -/
theorem hexValue_eq : ∀ c : UInt8,
    hexValue c = if IsHex c then some (UInt8.ofNat (digitValue c)) else none := by decide +kernel

theorem digitValue_lt : ∀ c : UInt8, IsHex c → digitValue c < 16 := by decide +kernel

/-! ## Writing -/

variable {m : Memory} {i hexMaxlen binMaxlen : Nat} {bin hex out : List UInt8}

theorem length_hexText (bin : List UInt8) : (hexText bin).length = bin.length * 2 := by
  simp [hexText, List.length_flatMap]

/-- Two characters are stored for each byte. -/
theorem slice_writeDigits (i : Nat) (bin : List UInt8) (m : Memory) :
    (writeDigits i bin m).2.1.slice 0 ((i + bin.length) * 2) = m.slice 0 (i * 2) ++ hexText bin := by
  induction bin generalizing i m with
  | nil => simp [writeDigits, hexText, pure]
  | cons b bin ih =>
      have hrun : (writeDigits i (b :: bin) m).2.1 =
          (writeDigits (i + 1) bin (Function.update (Function.update m (i * 2) (hexChar (b >>> 4)))
            (i * 2 + 1) (hexChar (b &&& 0xf)))).2.1 := rfl
      have hlen : i + (b :: bin).length = i + 1 + bin.length := by
        rw [List.length_cons]
        omega
      rw [hrun, hlen, ih, Nat.succ_mul, Memory.slice_update_last, Memory.slice_update_last]
      simp [hexText, hexChar_high, hexChar_low]

theorem confined_writeDigits (h : (i + bin.length) * 2 ≤ hexMaxlen) :
    Confined (· < hexMaxlen) (writeDigits i bin) fun _ => True := by
  induction bin generalizing i with
  | nil => exact confined_pure trivial
  | cons b bin ih =>
      rw [List.length_cons] at h
      refine confined_seq (confined_write _ (by omega)) fun _ => ?_
      refine confined_seq (confined_write _ (by omega)) fun _ => ?_
      exact ih (by omega)

/-- `toHex` stays inside its buffer. -/
theorem confined_toHex : Confined (· < hexMaxlen) (toHex hexMaxlen bin) fun _ => True := by
  refine Confined.ite (fun _ => confined_pure trivial) fun hguard => ?_
  refine confined_seq (confined_writeDigits (by omega)) fun _ => ?_
  refine confined_seq ?_ fun _ => confined_pure trivial
  exact Confined.ite (fun hlt => confined_write _ hlt) fun _ => confined_pure trivial

/-- It writes the digits if there is room for them. -/
theorem toHex_writes (hlen : bin.length + hexMaxlen ≤ 2 ^ 64) (hroom : bin.length * 2 ≤ hexMaxlen)
    (hbin : bin ≠ []) (m : Memory) :
    (toHex hexMaxlen bin m).1 = true ∧
      (toHex hexMaxlen bin m).2.1.slice 0 (bin.length * 2) = hexText bin := by
  have hpos := List.length_pos_iff.mpr hbin
  have hguard : ¬ (bin.length ≥ (2 ^ 64 - 1) / 2 ∨ hexMaxlen < bin.length * 2) := by omega
  have hdigits := slice_writeDigits 0 bin m
  rw [Nat.zero_add] at hdigits
  have hend : ∀ m : Memory, (terminate hexMaxlen (bin.length * 2) m).2.1.slice 0
      (bin.length * 2) = m.slice 0 (bin.length * 2) := by
    intro m
    unfold terminate
    split
    · exact Memory.slice_update_of_le le_rfl
    · rfl
  rw [toHex, cvtBin2hex, if_neg hguard]
  exact ⟨rfl, (hend _).trans hdigits⟩

/-! ## Reading -/

/-- The scan has got as far as `hex2bin` with `bin` and the half byte `acc`. -/
structure Scan.At (d : Scan) (m : Memory) (acc : Option UInt8) (bin : List UInt8) : Prop where
  ret : d.ret = 0
  state : d.state = 0 ∨ d.state = ~~~0
  acc : acc = if d.state = 0 then none else some d.acc
  binPos : d.binPos = bin.length
  stored : m.slice 0 d.binPos = bin

variable {d : Scan} {acc : Option UInt8}

/-- The scan ended in the middle of a byte, without room or before the end of the text. -/
def Scan.Fails (d : Scan) (hexLen : Nat) : Prop := d.state ≠ 0 ∨ d.ret ≠ 0 ∨ d.hexPos < hexLen

theorem Scan.At.result (h : d.At m none bin) : d.result d.hexPos = 0 := by
  have hstate : d.state = 0 := by
    by_contra hne
    have hacc := h.acc.trans (if_neg hne)
    contradiction
  simp [Scan.result, hstate, h.ret]

theorem Scan.Fails.result {hexLen : Nat} (h : d.Fails hexLen) : d.result hexLen ≠ 0 := by
  unfold Scan.result
  by_cases hstate : d.state = 0
  · rcases h with h | h | h
    · contradiction
    · by_cases hpos : d.hexPos = hexLen <;> simp [hstate, h, hpos]
    · simp [hstate, h.ne]
  · simp [hstate]

variable (binMaxlen hex) in
/-- The scan of the text that is left stores what `hex2bin` makes of it. -/
theorem run_scan (h : d.At m acc bin) :
    let r := scan binMaxlen hex d m
    match hex2bin binMaxlen acc bin hex with
    | some out => r.1.At r.2.1 none out ∧ r.1.hexPos = d.hexPos + hex.length
    | none => r.1.Fails (d.hexPos + hex.length) := by
  induction hex generalizing d m acc bin with
  | nil =>
      dsimp only
      unfold scan
      cases acc with
      | none => exact ⟨h, rfl⟩
      | some high =>
          refine .inl fun hstate => ?_
          have hacc := h.acc.trans (if_pos hstate)
          contradiction
  | cons c hex ih =>
      have hend : d.hexPos + (c :: hex).length = d.hexPos + 1 + hex.length := by
        rw [List.length_cons]
        omega
      dsimp only
      rw [hend]
      unfold scan
      simp only [hex2bin]
      cases hvalue : hexValue c with
      | none => exact .inr (.inr (by simp only [pure]; omega))
      | some value =>
          have hstored : (bin ++ [d.acc ||| value]).length = bin.length + 1 := List.length_append
          by_cases hmax : bin.length ≥ binMaxlen
          · have hmax' : d.binPos ≥ binMaxlen := by rwa [h.binPos]
            simp only [if_pos hmax, if_pos hmax']
            exact .inr (.inl (by simp [pure]))
          · have hmax' : ¬ d.binPos ≥ binMaxlen := by rwa [h.binPos]
            simp only [if_neg hmax, if_neg hmax']
            rcases h.state with hstate | hstate
            · have hacc : acc = none := h.acc.trans (if_pos hstate)
              simp only [hacc, if_pos hstate]
              exact ih ⟨h.ret, by simp [hstate], by simp [hstate], h.binPos, h.stored⟩
            · have hne : d.state ≠ 0 := by rw [hstate]; decide
              have hacc : acc = some d.acc := h.acc.trans (if_neg hne)
              simp only [hacc, if_neg hne]
              refine ih ⟨h.ret, by simp [hstate], by simp [hstate], ?_, ?_⟩
              · rw [hstored, ← h.binPos]
              · rw [← h.stored]
                exact Memory.slice_update_last

/-- The scan stores where there is room. -/
theorem confined_scan : Confined (· < binMaxlen) (scan binMaxlen hex d) fun _ => True := by
  induction hex generalizing d with
  | nil => exact confined_pure trivial
  | cons c hex ih =>
      unfold scan
      cases hexValue c with
      | none => exact confined_pure trivial
      | some value =>
          refine Confined.ite (fun _ => confined_pure trivial) fun hmax => ?_
          refine Confined.ite (fun _ => ih) fun _ => ?_
          exact confined_seq (confined_write _ (by omega)) fun _ => ih

theorem confined_fromHexBin :
    Confined (· < binMaxlen) (fromHexBin binMaxlen hex) fun _ => True := by
  refine Confined.ite (fun _ => confined_pure trivial) fun _ => ?_
  refine confined_seq ?_ fun _ => confined_pure trivial
  exact confined_seq confined_scan fun _ => confined_pure trivial

variable (binMaxlen hex) in
/-- The program decodes what the list function does, and fails where that does. -/
theorem run_fromHexBin (m : Memory) :
    let r := fromHexBin binMaxlen hex m
    match fromHexInto binMaxlen hex with
    | some out => r.1 = true ∧ r.2.1.slice 0 out.length = out
    | none => r.1 = false := by
  dsimp only
  unfold fromHexBin fromHexInto
  by_cases hempty : hex.isEmpty = true
  · simp only [if_pos hempty]
    rfl
  simp only [if_neg hempty]
  have hstart : Scan.At ⟨0, 0, 0, 0, 0⟩ m none [] := ⟨rfl, .inl rfl, rfl, rfl, rfl⟩
  have hrun := run_scan binMaxlen hex hstart
  dsimp only at hrun
  rw [Nat.zero_add] at hrun
  have hret : (cvtHex2bin binMaxlen hex m).1 =
      (scan binMaxlen hex ⟨0, 0, 0, 0, 0⟩ m).1.result hex.length := rfl
  have hvalue : ∀ k : Int, k = (cvtHex2bin binMaxlen hex m).1 →
      ((cvtHex2bin binMaxlen hex >>= fun ret => pure (ret == 0)) m).1 = (k == 0) := by
    rintro _ rfl
    rfl
  cases hout : hex2bin binMaxlen none [] hex with
  | some out =>
      simp only [hout] at hrun
      obtain ⟨hat, hpos⟩ := hrun
      have hzero : (cvtHex2bin binMaxlen hex m).1 = 0 := by rw [hret, ← hpos, hat.result]
      exact ⟨by rw [hvalue _ rfl, hzero]; rfl, hat.binPos ▸ hat.stored⟩
  | none =>
      simp only [hout] at hrun
      rw [hvalue _ rfl, hret]
      exact beq_eq_false_iff_ne.mpr hrun.result

/-! ## Round trip -/

/-- What is decoded are the values of the pairs. -/
theorem hex2bin_pairs (hex : List UInt8) (h : hex2bin binMaxlen none bin hex = some out) :
    out = bin ++ pairs hex := by
  have hdigit : ∀ c value, hexValue c = some value →
      digitValue c < 16 ∧ value = UInt8.ofNat (digitValue c) := by
    intro c value hc
    rw [hexValue_eq, Option.ite_none_right_eq_some] at hc
    exact ⟨digitValue_lt c hc.1, (Option.some.inj hc.2).symm⟩
  have hjoin : ∀ x < 16, ∀ y < 16,
      UInt8.ofNat x * 16 ||| UInt8.ofNat y = UInt8.ofNat (x * 16 + y) := by decide +kernel
  induction hex using pairs.induct generalizing bin with
  | case1 c d hex ih =>
      simp only [hex2bin] at h
      cases hc : hexValue c with
      | none => simp only [hc, reduceCtorEq] at h
      | some high =>
          simp only [hc, Option.ite_none_left_eq_some] at h
          cases hd : hexValue d with
          | none => simp only [hd, reduceCtorEq, and_false] at h
          | some low =>
              simp only [hd, Option.ite_none_left_eq_some] at h
              obtain ⟨hhigh, rfl⟩ := hdigit c high hc
              obtain ⟨hlow, rfl⟩ := hdigit d low hd
              rw [ih h.2.2, hjoin _ hhigh _ hlow, pairs, List.append_assoc, List.singleton_append]
  | case2 hex hshort =>
      rcases hex with - | ⟨c, - | ⟨d, hex⟩⟩
      · simpa [hex2bin, pairs] using h.symm
      · simp only [hex2bin] at h
        cases hc : hexValue c with
        | none => simp only [hc, reduceCtorEq] at h
        | some high => simp [hc] at h
      · exact absurd rfl (hshort c d hex)

theorem isHex_hexText (bin : List UInt8) : ∀ c ∈ hexText bin, IsHex c := by
  have hdigit : ∀ b : UInt8, IsHex (lowercase.getD (b.toNat / 16) 0) ∧
      IsHex (lowercase.getD (b.toNat % 16) 0) := by decide +kernel
  intro c hc
  obtain ⟨b, -, hb⟩ := List.mem_flatMap.mp hc
  simp only [List.mem_cons, List.not_mem_nil, or_false] at hb
  rcases hb with rfl | rfl
  · exact (hdigit b).1
  · exact (hdigit b).2

theorem pairs_hexText (bin : List UInt8) : pairs (hexText bin) = bin := by
  have hpair : ∀ b : UInt8, UInt8.ofNat (digitValue (lowercase.getD (b.toNat / 16) 0) * 16 +
      digitValue (lowercase.getD (b.toNat % 16) 0)) = b := by decide +kernel
  induction bin with
  | nil => rfl
  | cons b bin ih =>
      have hcons : hexText (b :: bin) = lowercase.getD (b.toNat / 16) 0 ::
          lowercase.getD (b.toNat % 16) 0 :: hexText bin := rfl
      rw [hcons, pairs, ih, hpair]

/-- The pairs of a text that is decoded. -/
theorem fromHexInto_pairs (h : fromHexInto binMaxlen hex = some out) : out = pairs hex := by
  unfold fromHexInto at h
  split at h
  · contradiction
  · simpa using hex2bin_pairs hex h

theorem fromHexInto_hexText (hbin : bin ≠ []) (hroom : bin.length ≤ binMaxlen) :
    fromHexInto binMaxlen (hexText bin) = some bin := by
  have hlen := length_hexText bin
  have hpos := List.length_pos_iff.mpr hbin
  have hsome : (fromHexInto binMaxlen (hexText bin)).isSome = true := by
    rw [fromHexInto_isSome, ← List.length_pos_iff, hlen]
    exact ⟨by omega, isHex_hexText bin, by omega, by omega⟩
  obtain ⟨out, hout⟩ := Option.isSome_iff_exists.mp hsome
  rw [hout, fromHexInto_pairs hout, pairs_hexText]

variable (binMaxlen) in
/-- `fromHex` takes text of digits only, in pairs that fit, and stores what they stand for. -/
theorem fromHexBin_iff (m : Memory) (hhex : hex ≠ []) :
    ((fromHexBin binMaxlen hex m).1 = true ↔
      hex.length % 2 = 0 ∧ hex.length / 2 ≤ binMaxlen ∧ ∀ c ∈ hex, IsHex c) ∧
    ((fromHexBin binMaxlen hex m).1 = true →
      (fromHexBin binMaxlen hex m).2.1.slice 0 (hex.length / 2) = pairs hex) := by
  have hiff : (fromHexInto binMaxlen hex).isSome = true ↔ _ := fromHexInto_isSome
  have hrun := run_fromHexBin binMaxlen hex m
  dsimp only at hrun
  cases hout : fromHexInto binMaxlen hex with
  | some out =>
      simp only [hout, Option.isSome_some, true_iff] at hrun hiff
      have hlen := length_fromHexInto hout
      refine ⟨iff_of_true hrun.1 ⟨hiff.2.2.1, by omega, hiff.2.1⟩, fun _ => ?_⟩
      rw [← fromHexInto_pairs hout, ← hlen, Nat.mul_div_cancel _ Nat.two_pos, hrun.2]
  | none =>
      simp only [hout, Option.isSome_none, Bool.false_eq_true, false_iff] at hrun hiff
      rw [hrun]
      refine ⟨iff_of_false Bool.false_ne_true ?_, fun h => absurd h Bool.false_ne_true⟩
      rintro ⟨heven, hroom, hall⟩
      exact hiff ⟨hhex, hall, heven, by omega⟩

/-- Conversion in both directions.  The two buffers of `toHex` lie in the address space. -/
theorem hex_exact (m m' : Memory) :
    (∀ bin hexMaxlen binMaxlen, bin ≠ [] → bin.length * 2 ≤ hexMaxlen →
      bin.length + hexMaxlen ≤ 2 ^ 64 → bin.length ≤ binMaxlen →
      let text := (toHex hexMaxlen bin m).2.1.slice 0 (bin.length * 2)
      (toHex hexMaxlen bin m).1 = true ∧ text = hexText bin ∧
        (∀ j ∈ (toHex hexMaxlen bin).noted m, j < hexMaxlen) ∧
        fromHex text = bin ∧ (fromHexBin binMaxlen text m').1 = true ∧
        (fromHexBin binMaxlen text m').2.1.slice 0 bin.length = bin) ∧
    ∀ hex binMaxlen, 2 ≤ hex.length →
      ((fromHexBin binMaxlen hex m').1 = true ↔
        hex.length % 2 = 0 ∧ hex.length / 2 ≤ binMaxlen ∧ ∀ c ∈ hex, IsHex c) ∧
      ((fromHexBin binMaxlen hex m').1 = true →
        (fromHexBin binMaxlen hex m').2.1.slice 0 (hex.length / 2) = pairs hex) ∧
      ∀ j ∈ (fromHexBin binMaxlen hex).noted m', j < binMaxlen := by
  constructor
  · intro bin hexMaxlen binMaxlen hbin hroom hlen hmax
    obtain ⟨htrue, htext⟩ := toHex_writes hlen hroom hbin m
    dsimp only
    rw [htext]
    have hhalf : (hexText bin).length / 2 = bin.length := by
      rw [length_hexText, Nat.mul_div_cancel _ Nat.two_pos]
    have hrun := run_fromHexBin binMaxlen (hexText bin) m'
    simp only [fromHexInto_hexText hbin hmax] at hrun
    refine ⟨htrue, rfl, (confined_toHex m).2, ?_, hrun⟩
    rw [fromHex, hhalf, fromHexInto_hexText hbin le_rfl, Option.getD_some]
  · intro hex binMaxlen hlen
    obtain ⟨hiff, hvalue⟩ := fromHexBin_iff binMaxlen m'
      (List.length_pos_iff.mp (Nat.lt_of_lt_of_le Nat.two_pos hlen))
    exact ⟨hiff, hvalue, (confined_fromHexBin m').2⟩

theorem hex_exact_sample :
    let text := (toHex 5 [0x1f, 0xc0] fun _ => 0x2e).2.1.slice 0 4
    text = [0x31, 0x66, 0x63, 0x30] ∧ fromHex text = [0x1f, 0xc0] := by
  have h := (hex_exact (fun _ => 0x2e) fun _ => 0).1 [0x1f, 0xc0] 5 2 (by decide) (by decide)
    (by decide) (by decide)
  dsimp only at h ⊢
  exact ⟨h.2.1.trans (by decide +kernel), h.2.2.2.1⟩

end Cvt

end XLArig
