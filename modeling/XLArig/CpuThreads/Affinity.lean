import XLArig.ConfigTransform

/-!
# XLArig.CpuThreads.Affinity

Which processing unit each thread of a profile gets for a mask, in all the ways in which a mask
can be given.

The command line takes every mask as it is, while the configuration file takes none with the
highest bit: a number is no mask at all, and a text is cut to the largest signed integer
(`affinities_iff`).
-/

namespace XLArig

namespace CpuThreads

open CString

/-! ## The bits that are set -/

/-- The position of the bit `i` of those that are set in the mask, from the lowest on. -/
noncomputable def affinityOf (M i : Nat) : Int :=
  if i < Nat.count (fun b => M.testBit b = true) 64 then
    (Nat.nth (fun b => M.testBit b = true) i : Nat)
  else -1

section

variable (p : Nat → Bool) (n i : Nat)

theorem length_filter_range :
    ((List.range n).filter p).length = Nat.count (fun b => p b = true) n := by
  induction n with
  | zero => rfl
  | succ n ih =>
      rw [List.range_succ, List.filter_append, List.length_append, ih, Nat.count_succ]
      cases hp : p n <;> simp [hp]

/-- Among the numbers below `n` that satisfy `p`, the one at `i` is number `i` of all. -/
theorem getElem?_filter_range : ((List.range n).filter p)[i]? =
    if i < Nat.count (fun b => p b = true) n then some (Nat.nth (fun b => p b = true) i)
    else none := by
  induction n with
  | zero => simp
  | succ n ih =>
      have hlen := length_filter_range p n
      rw [List.range_succ, List.filter_append, Nat.count_succ]
      cases hp : p n with
      | false => simpa [hp] using ih
      | true =>
          have hlast : [n].filter p = [n] := by simp [hp]
          rw [hlast, if_pos rfl]
          rcases Nat.lt_trichotomy i (Nat.count (fun b => p b = true) n) with hlt | rfl | hgt
          · rw [List.getElem?_append_left (by omega), ih, if_pos hlt, if_pos (by omega)]
          · have hnth : Nat.nth (fun b => p b = true) (Nat.count (fun b => p b = true) n) = n :=
              Nat.nth_count hp
            rw [if_pos (Nat.lt_succ_self _), hnth, ← hlen, List.getElem?_concat_length]
          · rw [if_neg (by omega), List.getElem?_eq_none]
            rw [List.length_append, hlen, List.length_singleton]
            omega

/-- The bits of a mask as the code counts them. -/
theorem getElem?_setBits {affinity : Int} {M : Nat} (h : (affinity % 2 ^ 64).toNat = M) (i : Nat) :
    (setBits affinity)[i]? = if i < Nat.count (fun b => M.testBit b = true) 64 then
      some (Nat.nth (fun b => M.testBit b = true) i) else none := by
  rw [setBits, h]
  exact getElem?_filter_range _ 64 i

theorem getAffinity_eq {affinity : Int} {M : Nat} (h : (affinity % 2 ^ 64).toNat = M)
    (hne : affinity ≠ -1) (i : Nat) : getAffinity i affinity = affinityOf M i := by
  rw [getAffinity, if_neg hne, getElem?_setBits h, affinityOf]
  split <;> split <;> simp_all

end

/-! ## Texts -/

/-- A decimal number. -/
def Decimal (s : List UInt8) (M : Nat) : Prop :=
  s ≠ [] ∧ (∀ c ∈ s, isDigit c = true) ∧ s.foldl (fun n c => n * 10 + digitValue c) 0 = M

/-- A hexadecimal number, with its prefix. -/
def Hexadecimal (s : List UInt8) (M : Nat) : Prop :=
  ∃ digits, s = bytes "0x" ++ digits ∧ digits ≠ [] ∧ (∀ c ∈ digits, digitValue c < 16) ∧
    digits.foldl (fun n c => n * 16 + digitValue c) 0 = M

section

variable {s : List UInt8} {M : Nat}

theorem strstr_decimal (h : ∀ c ∈ s, isDigit c = true) : strstr (bytes "0x") s = none := by
  induction s with
  | nil => rfl
  | cons c s ih =>
      have hrest : ∀ d ∈ s, isDigit d = true := fun d hd => h d (List.mem_cons_of_mem _ hd)
      have hnot : ¬ bytes "0x" <+: c :: s := by
        rintro ⟨t, ht⟩
        have hx : (0x78 : UInt8) ∈ c :: s := by
          rw [← ht]
          exact List.mem_append_left _ (by decide +kernel)
        exact absurd (h _ hx) (by decide)
      rw [strstr, if_neg hnot, ih hrest]

theorem digit_spec {c : UInt8} (h : isDigit c = true) :
    isSpace c = false ∧ c ≠ 0x2D ∧ c ≠ 0x2B ∧ digitValue c < 10 ∧
      (c.toNat : Int) - 0x30 = digitValue c := by
  simp only [isDigit, decide_eq_true_eq, UInt8.le_iff_toNat_le] at h
  have hlow : (0x30 : UInt8).toNat = 0x30 := rfl
  have hhigh : (0x39 : UInt8).toNat = 0x39 := rfl
  have hvalue : digitValue c = c.toNat - 0x30 := if_pos (by simpa [UInt8.le_iff_toNat_le] using h)
  refine ⟨?_, ?_, ?_, by omega, by omega⟩
  · rw [isSpace, decide_eq_false_iff_not]
    rintro (rfl | hspace)
    · exact absurd h.1 (by decide)
    · have hlast : (0x0D : UInt8).toNat = 0x0D := rfl
      have hle := UInt8.le_iff_toNat_le.mp hspace.2
      omega
  · rintro rfl
    exact absurd h.1 (by decide)
  · rintro rfl
    exact absurd h.1 (by decide)

theorem hexDigit?_eq (c : UInt8) :
    hexDigit? c = if digitValue c < 16 then some (digitValue c) else none := by
  have hall : ∀ n : Fin 256, hexDigit? (.ofNat n) =
      if digitValue (.ofNat n) < 16 then some (digitValue (.ofNat n)) else none := by
    decide +kernel
  simpa using hall ⟨c.toNat, c.toNat_lt⟩

/-- A decimal number has no sign and no space before it, and ends with its last digit. -/
theorem decimal_head (h : ∀ c ∈ s, isDigit c = true) (hne : s ≠ []) :
    s.dropWhile isSpace = s ∧ s.head? ≠ some 0x2D ∧ s.head? ≠ some 0x2B := by
  obtain ⟨c, s, rfl⟩ := List.exists_cons_of_ne_nil hne
  obtain ⟨hspace, hminus, hplus, -, -⟩ := digit_spec (h c List.mem_cons_self)
  simp [hspace, hminus, hplus]

theorem strtol_decimal (h : Decimal s M) : strtol s = min (M : Int) (2 ^ 63 - 1) := by
  obtain ⟨hne, hdigits, rfl⟩ := h
  obtain ⟨hspace, hminus, hplus⟩ := decimal_head hdigits hne
  have hfold : ∀ (l : List UInt8), (∀ c ∈ l, isDigit c = true) → ∀ n : Nat,
      l.foldl (fun (n : Int) c => n * 10 + (c.toNat - 0x30)) n =
        (l.foldl (fun n c => n * 10 + digitValue c) n : Nat) := by
    intro l hl
    induction l with
    | nil => exact fun n => rfl
    | cons c l ih =>
        intro n
        obtain ⟨-, -, -, -, hvalue⟩ := digit_spec (hl c List.mem_cons_self)
        rw [List.foldl_cons, List.foldl_cons, hvalue,
          ← ih (fun d hd => hl d (List.mem_cons_of_mem _ hd))]
        push_cast
        rfl
  have hvalue := hfold s hdigits 0
  have hall : s.takeWhile isDigit = s := List.takeWhile_eq_self_iff.mpr hdigits
  have hmax : ∀ n : Nat,
      max (-2 ^ 63) (min (n : Int) (2 ^ 63 - 1)) = min (n : Int) (2 ^ 63 - 1) := by
    intro n
    omega
  rw [← hmax, ← hvalue]
  simp only [strtol, hspace, hminus, hplus, or_self, if_false, hall]
  rfl

theorem strtoullDec_decimal (h : Decimal s M) (hM : M < 2 ^ 64) : strtoullDec s = .ofNat M := by
  obtain ⟨hne, hdigits, hvalue⟩ := h
  obtain ⟨hspace, hminus, hplus⟩ := decimal_head hdigits hne
  have hnumber : number 10 s = M := by
    rw [number, List.takeWhile_eq_self_iff.mpr, hvalue]
    exact fun c hc => decide_eq_true (digit_spec (hdigits c hc)).2.2.2.1
  simp only [strtoullDec, hspace, hminus, hplus, or_self, if_false, hnumber]
  rw [if_neg (by omega)]

theorem strtollHex_hexadecimal (h : Hexadecimal s M) :
    strtollHex s = min (M : Int) (2 ^ 63 - 1) := by
  obtain ⟨digits, rfl, -, hdigits, rfl⟩ := h
  have hdrop : (bytes "0x" ++ digits).drop 2 = digits := rfl
  have hall : digits.takeWhile (fun c => (hexDigit? c).isSome) = digits := by
    rw [List.takeWhile_eq_self_iff]
    intro c hc
    rw [hexDigit?_eq, if_pos (hdigits c hc)]
    rfl
  have hmap : digits.filterMap hexDigit? = digits.map digitValue := by
    rw [← List.filterMap_eq_map]
    refine List.filterMap_congr fun c hc => ?_
    rw [hexDigit?_eq, if_pos (hdigits c hc)]
    rfl
  rw [strtollHex, hdrop, hall, hmap, List.foldl_map]

theorem strtoullHex_hexadecimal (h : Hexadecimal s M) (hM : M < 2 ^ 64) :
    strtoullHex s = .ofNat M := by
  obtain ⟨digits, rfl, -, hdigits, hvalue⟩ := h
  have hnumber : number 16 ((bytes "0x" ++ digits).drop 2) = M := by
    have hdrop : (bytes "0x" ++ digits).drop 2 = digits := rfl
    rw [hdrop, number, List.takeWhile_eq_self_iff.mpr, hvalue]
    exact fun c hc => decide_eq_true (hdigits c hc)
  rw [strtoullHex, hnumber]
  exact if_neg (by omega)

/-- A number in either notation. -/
def Writes (s : List UInt8) (M : Nat) : Prop := Decimal s M ∨ Hexadecimal s M

theorem strstr_hexadecimal (h : Hexadecimal s M) : strstr (bytes "0x") s = some s := by
  obtain ⟨digits, rfl, -⟩ := h
  exact if_pos ⟨digits, rfl⟩

theorem cstr_writes (h : Writes s M) : Json.cstr s = s := by
  refine List.takeWhile_eq_self_iff.mpr fun c hc => bne_iff_ne.mpr ?_
  rintro rfl
  rcases h with ⟨-, hdigits, -⟩ | ⟨digits, rfl, -, hdigits, -⟩
  · exact absurd (hdigits 0 hc) (by decide)
  · rcases List.mem_append.mp hc with hc | hc
    · exact absurd hc (by decide +kernel)
    · exact absurd (hdigits 0 hc) (by decide)

/-- A text of the configuration file is cut to the largest signed integer. -/
theorem getAffinityMask_text (h : Writes s M) :
    getAffinityMask (.string s) = min (M : Int) (2 ^ 63 - 1) := by
  have hnone : (Json.string s).int64? = none := rfl
  have hcstr := cstr_writes h
  rcases h with h | h
  · simpa only [getAffinityMask, hnone, hcstr, strstr_decimal h.2.1] using strtol_decimal h
  · simpa only [getAffinityMask, hnone, hcstr, strstr_hexadecimal h]
      using strtollHex_hexadecimal h

/-- The command line takes it as it is. -/
theorem affinityArg_text (h : Writes s M) (hM : M < 2 ^ 64) :
    ConfigTransform.affinityArg s = .ofNat M := by
  rw [ConfigTransform.affinityArg]
  rcases h with h | h
  · rw [strstr_decimal h.2.1]
    exact strtoullDec_decimal h hM
  · rw [strstr_hexadecimal h]
    exact strtoullHex_hexadecimal h hM

end

/-! ## Masks with the highest bit -/

section

variable {M n : Nat}

theorem eq_of_all (hM : M < 2 ^ 64) (h : ∀ i < 64, M.testBit i = true) : M = 2 ^ 64 - 1 := by
  refine Nat.eq_of_testBit_eq fun i => ?_
  rw [Nat.testBit_two_pow_sub_one]
  by_cases hi : i < 64
  · rw [h i hi, decide_eq_true hi]
  · rw [decide_eq_false hi]
    exact Nat.testBit_lt_two_pow (hM.trans_le (Nat.pow_le_pow_right (by decide) (by omega)))

/-- The highest bit. -/
theorem testBit_63 (hM : M < 2 ^ 64) (hhigh : 2 ^ 63 ≤ M) : M.testBit 63 = true := by
  rw [Nat.testBit_eq_decide_div_mod_eq, decide_eq_true_eq]
  omega

/-- Bits that are set from the lowest on stand at their own number. -/
theorem affinityOf_low {i : Nat} (h : ∀ j < n, M.testBit j = true) (hi : i < n) (hn : n ≤ 64) :
    affinityOf M i = i := by
  have hcount : ∀ k ≤ n, Nat.count (fun b => M.testBit b = true) k = k := fun k hk =>
    Nat.count_iff_forall.mpr fun j hj => h j (by omega)
  have hlt : i < Nat.count (fun b => M.testBit b = true) 64 := by
    have hmono := Nat.count_monotone (fun b => M.testBit b = true) (show i + 1 ≤ 64 by omega)
    rw [hcount (i + 1) hi] at hmono
    exact hmono
  have hnth := @Nat.nth_count (fun b => M.testBit b = true) _ i (h i hi)
  rw [hcount i (by omega)] at hnth
  rw [affinityOf, if_pos hlt, hnth]

/-- And only those do. -/
theorem testBit_of_affinityOf {i : Nat} (hM : M < 2 ^ 64) (h : affinityOf M i = i) :
    M.testBit i = true := by
  have hmod : ((M : Int) % 2 ^ 64).toNat = M := by omega
  have hget := getElem?_setBits hmod i
  rw [affinityOf] at h
  split at h
  · next hlt =>
    rw [if_pos hlt, Int.natCast_inj.mp h] at hget
    have hmem := List.mem_of_getElem? hget
    rw [setBits, hmod] at hmem
    exact (List.mem_filter.mp hmem).2
  · omega

/-- A text that was cut. -/
theorem cut_iff (hM : M < 2 ^ 64 - 1) (hhigh : 2 ^ 63 ≤ M) :
    (∀ i < n, getAffinity i (2 ^ 63 - 1) = affinityOf M i) ↔ ∀ i < n, M.testBit i = true := by
  have hcut : ∀ i, getAffinity i (2 ^ 63 - 1) = affinityOf (2 ^ 63 - 1) i :=
    getAffinity_eq (by decide) (by decide)
  have hones : ∀ j < 63, (2 ^ 63 - 1).testBit j = true := by
    intro j hj
    rw [Nat.testBit_two_pow_sub_one, decide_eq_true hj]
  have hlow : ∀ i < 63, getAffinity i (2 ^ 63 - 1) = i := fun i hi =>
    (hcut i).trans (affinityOf_low hones hi (by decide))
  have hsome : ¬ ∀ i < 63, M.testBit i = true := by
    intro hall
    have heq : M = 2 ^ 64 - 1 := eq_of_all (by omega) fun i hi => by
      by_cases h63 : i = 63
      · rw [h63]
        exact testBit_63 (by omega) hhigh
      · exact hall i (by omega)
    omega
  constructor
  · intro h
    have hbits : ∀ i < n, i < 63 → M.testBit i = true := fun i hi h63 =>
      testBit_of_affinityOf (by omega) ((h i hi).symm.trans (hlow i h63))
    intro i hi
    by_cases h63 : i < 63
    · exact hbits i hi h63
    · exact absurd (fun j hj => hbits j (by omega) hj) hsome
  · intro h i hi
    have hn : n < 63 := by
      by_contra hge
      exact hsome fun j hj => h j (by omega)
    rw [hlow i (by omega), affinityOf_low h hi (by omega)]

/-- What is neither a signed integer nor a text is no mask. -/
theorem getAffinityMask_none {value : Json} (hint : value.int64? = none)
    (hstring : ∀ s, value ≠ .string s) : getAffinityMask value = -1 := by
  unfold getAffinityMask
  rw [hint]
  cases value <;> simp at hstring ⊢

theorem getAffinityMask_high (hhigh : 2 ^ 63 ≤ M) : getAffinityMask (.int M) = -1 := by
  refine getAffinityMask_none ?_ fun s hs => Json.noConfusion hs
  unfold Json.int64?
  exact if_neg (by omega)

theorem unbound_iff (hM : M < 2 ^ 64 - 1) (hhigh : 2 ^ 63 ≤ M) :
    (∀ i < n, getAffinity i (-1) = affinityOf M i) ↔ n = 0 := by
  constructor
  · intro h
    by_contra hn
    have hfirst := h 0 (by omega)
    have hcount : 0 < Nat.count (fun b => M.testBit b = true) 64 := by
      rw [Nat.count_succ, if_pos (testBit_63 (by omega) hhigh)]
      exact Nat.succ_pos _
    rw [affinityOf, if_pos hcount] at hfirst
    have hnone : getAffinity 0 (-1) = -1 := rfl
    omega
  · rintro rfl i hi
    exact absurd hi (Nat.not_lt_zero i)

end

end CpuThreads

/-! ## The ways to give a mask -/

/-- Where a mask is given: in a profile of the configuration file, or with options. -/
inductive MaskSource
  | file (profile : List (List UInt8 × Json))
  | options (opts : List (IConfig.Key × List UInt8))

namespace MaskSource

open CpuThreads

/-- The mask `M`, for `n` threads. -/
def Gives (M n : Nat) : MaskSource → Prop
  | file profile =>
      ((Json.object profile).getUint (bytes "threads") 0).toNat = n ∧
        ((Json.object profile).getValue (bytes "affinity") = .int M ∨
          ∃ s, (Json.object profile).getValue (bytes "affinity") = .string s ∧ Writes s M)
  | options opts => ∃ mask count,
      ConfigTransform.lastArg .CPUAffinityKey opts = some mask ∧ Writes mask M ∧
        ConfigTransform.lastArg .ThreadsKey opts = some count ∧ CString.strtol count = n

/-- The mask has not the highest bit, or it does not matter. -/
def Kept (M n : Nat) : MaskSource → Prop
  | file profile => M < 2 ^ 63 ∨ n = 0 ∨
      (∃ s, (Json.object profile).getValue (bytes "affinity") = .string s) ∧
        ∀ i < n, M.testBit i = true
  | options _ => True

variable [Features]

/-- The threads of the profile, or of the profile `*` that the options make. -/
def threads : MaskSource → CpuThreads
  | file profile => .ofJSON (.object profile)
  | options opts => ((Cpu.Threads.empty.read (ConfigTransform.load opts)).profiles.find?
      (bytes "*")).getD .empty

/-- The first `n` threads have the affinities that the mask says. -/
def Follows (M n : Nat) (p : CpuThreads) : Prop :=
  ∀ i < n, (p.data[i]?).map CpuThread.affinity = some (affinityOf M i)

omit [Features] in
theorem follows_ofMask {M n : Nat} {intensity : UInt32} {affinity : Int} :
    Follows M n (.ofMask intensity n affinity) ↔
      ∀ i < n, getAffinity i affinity = affinityOf M i := by
  refine forall₂_congr fun i hi => ?_
  simp [ofMask, hi]

omit [Features] in
/-- The signed integer with the bits of the mask. -/
theorem toInt64_spec {M : Nat} (hM : M < 2 ^ 64) :
    (-2 ^ 63 ≤ (UInt64.ofNat M).toInt64.toInt ∧ (UInt64.ofNat M).toInt64.toInt < 2 ^ 63) ∧
      ((UInt64.ofNat M).toInt64.toInt % 2 ^ 64).toNat = M ∧
      (M ≠ 2 ^ 64 - 1 → (UInt64.ofNat M).toInt64.toInt ≠ -1) := by
  have hvalue : (UInt64.ofNat M).toInt64.toInt = (M : Int).bmod (2 ^ 64) := BitVec.toInt_ofNat ..
  rw [hvalue, Int.bmod_def]
  split
  · omega
  · omega

/-- The threads of the command line. -/
theorem follows_options {M n : Nat} {opts : List (IConfig.Key × List UInt8)} (hM : M < 2 ^ 64 - 1)
    (hn : n ≤ 1024) (h : (options opts).Gives M n) : Follows M n (options opts).threads := by
  obtain ⟨mask, count, hmask, hwrites, hcount, hthreads⟩ := h
  rcases Nat.eq_zero_or_pos n with rfl | hpos
  · exact fun i hi => absurd hi (Nat.not_lt_zero i)
  · obtain ⟨haffinity, hkept⟩ := ConfigTransform.foldl_transform .init opts
    have hvalid := ConfigTransform.valid_foldl ConfigTransform.valid_init opts
    rw [hmask, Option.map_some, Option.getD_some, affinityArg_text hwrites (by omega)] at haffinity
    rw [hcount, Option.map_some, Option.getD_some, ConfigTransform.uint64, hthreads] at hkept
    have hnat : (opts.foldl ConfigTransform.transform .init).threads.toNat = n := by
      rw [hkept, UInt64.toNat_ofNat']
      omega
    obtain ⟨hrange, hmod, hne⟩ := toInt64_spec (by omega : M < 2 ^ 64)
    rw [← haffinity] at hrange hmod hne
    have hread := ConfigTransform.read_finalize hvalid (by omega) hrange
    have hthreads : (options opts).threads =
        .ofMask (opts.foldl ConfigTransform.transform .init).intensity.toUInt32 n
          (opts.foldl ConfigTransform.transform .init).affinity := by
      rw [threads, ConfigTransform.load, hread, hnat, Option.getD_some]
    rw [hthreads, follows_ofMask]
    exact fun i _ => getAffinity_eq hmod (hne (by omega)) i

theorem threads_file {n : Nat} {profile : List (List UInt8 × Json)} (hn : n ≤ 1024)
    (h : ((Json.object profile).getUint (bytes "threads") 0).toNat = n) :
    ∃ intensity, (file profile).threads = .ofMask intensity n
      (getAffinityMask ((Json.object profile).getValue (bytes "affinity"))) := by
  have hmin : min ((Json.object profile).getUint (bytes "threads") 0).toNat 1024 = n := by omega
  rw [← hmin]
  exact ⟨_, rfl⟩

/-- Which masks bind the threads as they say. -/
theorem affinities_iff {M n : Nat} {source : MaskSource} (hM : M < 2 ^ 64 - 1) (hn : n ≤ 1024)
    (h : source.Gives M n) : Follows M n source.threads ↔ source.Kept M n := by
  cases source with
  | options opts => exact iff_of_true (follows_options hM hn h) trivial
  | file profile =>
      obtain ⟨hthreads, hmask⟩ := h
      obtain ⟨intensity, hofMask⟩ := threads_file hn hthreads
      rw [hofMask, follows_ofMask]
      by_cases hhigh : M < 2 ^ 63
      · have hlow : getAffinityMask ((Json.object profile).getValue (bytes "affinity")) = M := by
          rcases hmask with hnumber | ⟨s, hs, hwrites⟩
          · rw [hnumber, getAffinityMask_int (by omega)]
          · rw [hs, getAffinityMask_text hwrites]
            omega
        rw [hlow]
        exact iff_of_true (fun i _ => getAffinity_eq (by omega) (by omega) i) (.inl hhigh)
      · rw [Kept, or_iff_right hhigh]
        rcases hmask with hnumber | ⟨s, hs, hwrites⟩
        · rw [hnumber, getAffinityMask_high (by omega), unbound_iff hM (by omega)]
          simp
        · have hcut : getAffinityMask (.string s) = 2 ^ 63 - 1 := by
            rw [getAffinityMask_text hwrites]
            omega
          rw [hs, hcut, cut_iff hM (by omega)]
          constructor
          · exact fun h => .inr ⟨⟨s, rfl⟩, h⟩
          · rintro (rfl | ⟨-, h⟩)
            · exact fun i hi => absurd hi (Nat.not_lt_zero i)
            · exact h

/-- The highest and the lowest of 64 units, on the command line. -/
def twoUnits : List (IConfig.Key × List UInt8) :=
  [(.CPUAffinityKey, bytes "0x8000000000000001"), (.ThreadsKey, bytes "2")]

omit [Features] in
theorem follows_twoUnits :
    Follows 0x8000000000000001 2 (@threads defaultFeatures (options twoUnits)) := by
  have hwrites : Hexadecimal (bytes "0x8000000000000001") 0x8000000000000001 :=
    ⟨bytes "8000000000000001", by decide +kernel, by decide +kernel, by decide +kernel,
      by decide +kernel⟩
  exact (@affinities_iff defaultFeatures 0x8000000000000001 2 (options twoUnits) (by decide)
    (by decide) ⟨_, bytes "2", rfl, .inr hwrites, rfl, by decide +kernel⟩).mpr trivial

/-- The highest unit, as a number and as a text of the configuration file. -/
def highest (value : Json) : MaskSource :=
  file [(bytes "threads", .int 1), (bytes "affinity", value)]

omit [Features] in
/-- The thread is not bound, or bound to the lowest. -/
theorem highest_lost : ¬ ∀ (M n : Nat) (source : MaskSource), M < 2 ^ 64 - 1 → n ≤ 1024 →
    source.Gives M n → Follows M n (@threads defaultFeatures source) := by
  intro hall
  have hunit : affinityOf (2 ^ 63) 0 = 63 := by
    have hmod : ((2 ^ 63 : Int) % 2 ^ 64).toNat = 2 ^ 63 := by decide
    exact (getAffinity_eq hmod (by decide) 0).symm.trans (by decide +kernel)
  have hgives : (highest (.int (2 ^ 63 : Nat))).Gives (2 ^ 63) 1 := by
    refine ⟨by decide +kernel, .inl (Json.getValue_of_mem ?_ (by simp))⟩
    show [bytes "threads", bytes "affinity"].Nodup
    decide +kernel
  have hfollows := hall (2 ^ 63) 1 _ (by decide) (by decide) hgives 0 (by decide)
  rw [hunit] at hfollows
  revert hfollows
  decide +kernel

end MaskSource

end XLArig
