import XLArig.CString

/-!
# XLArig.Cvt

`base/tools/Cvt`: bytes from hexadecimal text.
-/

namespace XLArig

namespace Cvt

/-- The value of one character in `cvt_hex2bin`, which tells digits and letters apart
by masks. -/
def hexValue (c : UInt8) : Option UInt8 :=
  let num := c ^^^ 48
  let num0 := ((num.toUInt32 - 10) >>> 8).toUInt8
  let alpha := ((c.toUInt32 &&& ~~~(32 : UInt32)) - 55).toUInt8
  let alpha0 := (((alpha.toUInt32 - 10) ^^^ (alpha.toUInt32 - 16)) >>> 8).toUInt8
  if num0 ||| alpha0 = 0 then none else some ((num0 &&& num) ||| (alpha0 &&& alpha))

/-- The loop of `cvt_hex2bin` on the text that is left, for `max` bytes of room.  `acc`
is the high half of the byte that was begun, `bin` are the bytes before it. -/
def hex2bin (max : Nat) : Option UInt8 → List UInt8 → List UInt8 → Option (List UInt8)
  | none, bin, [] => some bin
  | some _, _, [] => none
  | acc, bin, c :: hex =>
      match hexValue c with
      | none => none
      | some value =>
          if bin.length ≥ max then none
          else
            match acc with
            | none => hex2bin max (some (value * 16)) bin hex
            | some high => hex2bin max none (bin ++ [high ||| value]) hex

/-- `Cvt::fromHex` into a buffer of `max` bytes. -/
def fromHexInto (max : Nat) (hex : List UInt8) : Option (List UInt8) :=
  if hex.isEmpty then none else hex2bin max none [] hex

/-- `Cvt::fromHex` into a new buffer, which is empty if that fails. -/
def fromHex (hex : List UInt8) : List UInt8 := (fromHexInto (hex.length / 2) hex).getD []

/-! ## What is decoded -/

/-- A digit, or one of the letters of either case. -/
def IsHex (c : UInt8) : Prop :=
  (0x30 ≤ c ∧ c ≤ 0x39) ∨ (0x41 ≤ c ∧ c ≤ 0x46) ∨ (0x61 ≤ c ∧ c ≤ 0x66)

instance (c : UInt8) : Decidable (IsHex c) := inferInstanceAs (Decidable (_ ∨ _))

theorem hexValue_isSome : ∀ c, (hexValue c).isSome = true ↔ IsHex c := by decide +kernel

theorem hexValue_all : ∀ c, (hexValue c).all (· < 16) = true := by decide +kernel

theorem hexValue_zero : ∀ c, hexValue c = some 0 ↔ c = 0x30 := by decide +kernel

variable {max : Nat} {acc : Option UInt8} {bin hex out : List UInt8}

/-- Half a byte counts 1. -/
def half (acc : Option UInt8) : Nat := if acc.isSome then 1 else 0

/-- The text is decoded if it is hexadecimal, ends with a byte and fits. -/
theorem hex2bin_isSome (hbin : bin.length ≤ max) : (hex2bin max acc bin hex).isSome = true ↔
    (∀ c ∈ hex, IsHex c) ∧ (half acc + hex.length) % 2 = 0 ∧
      bin.length * 2 + half acc + hex.length ≤ max * 2 := by
  induction hex generalizing acc bin with
  | nil => cases acc <;> simp [hex2bin, half, hbin]
  | cons c hex ih =>
      simp only [hex2bin, List.forall_mem_cons, List.length_cons]
      rw [← hexValue_isSome c]
      cases hv : hexValue c with
      | none => simp
      | some value =>
          by_cases hmax : bin.length ≥ max
          · simp only [if_pos hmax, Option.isSome_none, Bool.false_eq_true, false_iff]
            omega
          · cases acc with
            | none =>
                simp only [if_neg hmax, ih hbin, half, Option.isSome_some, Option.isSome_none, if_true,
                  Bool.false_eq_true, if_false, true_and]
                exact and_congr_right fun _ => by omega
            | some high =>
                have hlen : (bin ++ [high ||| value]).length = bin.length + 1 := List.length_append
                simp only [if_neg hmax, ih (hlen.trans_le (by omega)), half, Option.isSome_some,
                  Option.isSome_none, if_true, Bool.false_eq_true, if_false, true_and, hlen]
                exact and_congr_right fun _ => by omega

theorem length_hex2bin (h : hex2bin max acc bin hex = some out) :
    out.length * 2 = bin.length * 2 + half acc + hex.length := by
  induction hex generalizing acc bin with
  | nil =>
      cases acc with
      | none =>
          obtain rfl := Option.some.inj h
          simp [half]
      | some high => contradiction
  | cons c hex ih =>
      simp only [hex2bin] at h
      cases hv : hexValue c with
      | none => simp only [hv] at h; contradiction
      | some value =>
          simp only [hv, Option.ite_none_left_eq_some] at h
          cases acc with
          | none =>
              have hout := ih h.2
              simp only [half, Option.isSome_some, Option.isSome_none, if_true, Bool.false_eq_true,
                if_false, List.length_cons] at hout ⊢
              omega
          | some high =>
              have hout := ih h.2
              simp only [half, Option.isSome_some, Option.isSome_none, if_true, Bool.false_eq_true,
                if_false, List.length_cons, List.length_append, List.length_nil] at hout ⊢
              omega

/-- Nothing but zeros is decoded from zeros only. -/
theorem hex2bin_zero (h : hex2bin max acc bin hex = some out) : (∀ b ∈ out, b = 0) ↔
    (∀ b ∈ bin, b = 0) ∧ acc.getD 0 = 0 ∧ ∀ c ∈ hex, c = 0x30 := by
  induction hex generalizing acc bin with
  | nil =>
      cases acc with
      | none =>
          obtain rfl := Option.some.inj h
          simp
      | some high => contradiction
  | cons c hex ih =>
      simp only [hex2bin] at h
      cases hv : hexValue c with
      | none => simp only [hv] at h; contradiction
      | some value =>
          simp only [hv, Option.ite_none_left_eq_some] at h
          have hzero : value = 0 ↔ c = 0x30 := by
            rw [← hexValue_zero, hv, Option.some.injEq]
          have hlt : value < 16 := by
            have hall := hexValue_all c
            rw [hv] at hall
            exact of_decide_eq_true hall
          cases acc with
          | none =>
              rw [ih h.2, Option.getD_some, List.forall_mem_cons, ← hzero]
              have hmul : ∀ v : UInt8, v < 16 → (v * 16 = 0 ↔ v = 0) := by decide +kernel
              rw [hmul value hlt]
              simp
          | some high =>
              rw [ih h.2, List.forall_mem_cons, ← hzero]
              simp only [List.mem_append, List.mem_singleton, or_imp, forall_and, forall_eq,
                Option.getD_none, Option.getD_some, UInt8.or_eq_zero_iff, true_and]
              tauto

theorem fromHexInto_isSome : (fromHexInto max hex).isSome = true ↔
    hex ≠ [] ∧ (∀ c ∈ hex, IsHex c) ∧ hex.length % 2 = 0 ∧ hex.length ≤ max * 2 := by
  unfold fromHexInto
  cases hex with
  | nil => simp
  | cons c hex =>
      have hempty : ([] : List UInt8).length ≤ max := Nat.zero_le max
      simp [hex2bin_isSome hempty, half]

theorem length_fromHexInto (h : fromHexInto max hex = some out) : out.length * 2 = hex.length := by
  unfold fromHexInto at h
  split at h
  · contradiction
  · simpa [half] using length_hex2bin h

/-- Zeros are decoded from zeros only. -/
theorem fromHex_zeros {n : Nat} (hn : 0 < n) :
    fromHex hex = List.replicate n 0 ↔ hex = List.replicate (n * 2) 0x30 := by
  have hzeros : ∀ out, fromHexInto (hex.length / 2) hex = some out →
      ((∀ b ∈ out, b = 0) ↔ ∀ c ∈ hex, c = 0x30) := by
    intro out hout
    unfold fromHexInto at hout
    split at hout
    · contradiction
    · simpa using hex2bin_zero hout
  unfold fromHex
  constructor
  · intro h
    cases hout : fromHexInto (hex.length / 2) hex with
    | none =>
        rw [hout, Option.getD_none, eq_comm, List.replicate_eq_nil_iff] at h
        omega
    | some out =>
        rw [hout, Option.getD_some] at h
        have hlen := length_fromHexInto hout
        rw [h, List.length_replicate] at hlen
        refine List.eq_replicate_iff.mpr ⟨hlen.symm, (hzeros out hout).mp ?_⟩
        rw [h]
        exact fun b => List.eq_of_mem_replicate
  · intro h
    have hsome : (fromHexInto (hex.length / 2) hex).isSome = true := by
      rw [fromHexInto_isSome, h]
      refine ⟨by simp; omega, fun c hc => ?_, by simp, by simp⟩
      rw [List.eq_of_mem_replicate hc]
      decide
    obtain ⟨out, hout⟩ := Option.isSome_iff_exists.mp hsome
    have hlen := length_fromHexInto hout
    rw [h, List.length_replicate] at hlen
    rw [hout, Option.getD_some]
    refine List.eq_replicate_iff.mpr ⟨by omega, (hzeros out hout).mpr ?_⟩
    rw [h]
    exact fun c => List.eq_of_mem_replicate

end Cvt

end XLArig
