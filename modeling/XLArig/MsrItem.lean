import XLArig.Json.Read
import XLArig.Pool.Url

/-!
# XLArig.MsrItem

`hw/msr/MsrItem`: a register of the processor, the value to write, and the bits that are
written, as a text of hexadecimal numbers with colons between them.

The text goes through a buffer of 48 bytes.  A register of 8 digits, a value of 16 and a mask
of 16 need one more, and the last digit of the mask is lost.
-/

namespace XLArig

namespace CString

/-! ## Numbers in a text -/

/-- The value of a digit in any base up to 36; what is no digit has 36. -/
def digitValue (c : UInt8) : Nat :=
  if 0x30 ≤ c ∧ c ≤ 0x39 then c.toNat - 0x30
  else if 0x41 ≤ c ∧ c ≤ 0x5A then c.toNat - 0x41 + 10
  else if 0x61 ≤ c ∧ c ≤ 0x7A then c.toNat - 0x61 + 10
  else 36

/-- The base that a prefix stands for, and the text without it. -/
def numberBase : List UInt8 → Nat × List UInt8
  | 0x30 :: x :: c :: s =>
      if (x = 0x78 ∨ x = 0x58) ∧ digitValue c < 16 then (16, c :: s) else (8, 0x30 :: x :: c :: s)
  | 0x30 :: s => (8, 0x30 :: s)
  | s => (10, s)

/-- The digits at the head of a text, as a number. -/
def number (base : Nat) (s : List UInt8) : Nat :=
  (s.takeWhile (digitValue · < base)).foldl (fun n c => n * base + digitValue c) 0

/-- `strtoull(s, nullptr, 0)`, and `strtoul` where that has 64 bits too. -/
def strtoull (s : List UInt8) : UInt64 :=
  let s := s.dropWhile isSpace
  let negative := s.head? = some 0x2D
  let s := if s.head? = some 0x2D ∨ s.head? = some 0x2B then s.drop 1 else s
  let (base, s) := numberBase s
  let n := number base s
  if n ≥ 2 ^ 64 then .ofNat (2 ^ 64 - 1) else if negative then -.ofNat n else .ofNat n

/-- What `%x` prints. -/
def hex (n : Nat) : List UInt8 := (Nat.toDigits 16 n).map fun c => c.toNat.toUInt8

/-- The loop of `String::split`; `part` is what was read since the last separator. -/
def splitFrom (sep : UInt8) (part : List UInt8) : List UInt8 → List (List UInt8)
  | [] => if part = [] then [] else [part]
  | c :: s =>
      if c = sep then (if part = [] then [] else [part]) ++ splitFrom sep [] s
      else splitFrom sep (part ++ [c]) s

/-- `String::split`: empty parts are left out. -/
def split (sep : UInt8) (s : List UInt8) : List (List UInt8) :=
  if s = [] then [[]] else splitFrom sep [] s

end CString

/-- `MsrItem`. -/
@[ext]
structure MsrItem where
  reg : UInt32
  value : UInt64
  mask : UInt64
  deriving DecidableEq, Repr

namespace MsrItem

open CString

def kNoMask : UInt64 := .ofNat (2 ^ 64 - 1)

/-- `MsrItem()`. -/
def empty : MsrItem := ⟨0, 0, kNoMask⟩

def isValid (item : MsrItem) : Bool := item.reg > 0

/-- The numbers between the colons; without a third the mask has all bits. -/
def ofText (text : List UInt8) : MsrItem :=
  match split 0x3A text with
  | reg :: value :: rest =>
      { reg := (strtoull reg).toUInt32
        value := strtoull value
        mask :=
          match rest with
          | mask :: _ => strtoull mask
          | [] => kNoMask }
  | _ => empty

/-- `MsrItem(value)`. -/
def ofJSON : Json → MsrItem
  | .string s => ofText (Json.cstr s)
  | _ => empty

/-- What `toString` prints; a mask that has all bits is left out. -/
def text (item : MsrItem) : List UInt8 :=
  bytes "0x" ++ hex item.reg.toNat ++ bytes ":0x" ++ hex item.value.toNat ++
    if item.mask ≠ kNoMask then bytes ":0x" ++ hex item.mask.toNat else []

/-- `toString`. -/
def toString (item : MsrItem) : List UInt8 := (snprintf 48 item.text).1

/-- `MsrItem::toJSON`. -/
def toJSON (item : MsrItem) : Json := .string item.toString

/-- The text fits into the buffer. -/
def Fits (item : MsrItem) : Prop :=
  ¬ (2 ^ 28 ≤ item.reg.toNat ∧ 2 ^ 60 ≤ item.value.toNat ∧ 2 ^ 60 ≤ item.mask.toNat ∧
    item.mask ≠ kNoMask)

instance (item : MsrItem) : Decidable item.Fits := inferInstanceAs (Decidable (¬ _))

end MsrItem

namespace CString

/-! ## Hexadecimal numbers -/

variable {n : Nat} {part s : List UInt8} {sep : UInt8}

theorem hex_eq (n : Nat) : hex n =
    if n < 16 then [(Nat.digitChar n).toNat.toUInt8]
    else hex (n / 16) ++ [(Nat.digitChar (n % 16)).toNat.toUInt8] := by
  unfold hex
  rw [Nat.toDigits_eq_if (by decide)]
  split <;> simp

theorem digitValue_digitChar :
    ∀ n < 16, digitValue (Nat.digitChar n).toNat.toUInt8 = n := by decide

theorem hex_ne_nil (n : Nat) : hex n ≠ [] := by simp [hex]

/-- All bytes are digits. -/
theorem digit_of_mem_hex : ∀ c ∈ hex n, digitValue c < 16 := by
  induction n using Nat.strongRecOn with
  | ind n ih =>
      rw [hex_eq]
      split
      · next hlt =>
        intro c hc
        rw [List.mem_singleton] at hc
        rw [hc, digitValue_digitChar n hlt]
        exact hlt
      · next hge =>
        intro c hc
        rw [List.mem_append, List.mem_singleton] at hc
        obtain hc | rfl := hc
        · exact ih (n / 16) (by omega) c hc
        · rw [digitValue_digitChar _ (by omega)]
          omega

theorem foldl_hex (n : Nat) : (hex n).foldl (fun n c => n * 16 + digitValue c) 0 = n := by
  induction n using Nat.strongRecOn with
  | ind n ih =>
      rw [hex_eq]
      split
      · next hlt => simp [digitValue_digitChar n hlt]
      · next hge =>
        rw [List.foldl_append, ih (n / 16) (by omega), List.foldl_cons, List.foldl_nil,
          digitValue_digitChar _ (by omega)]
        omega

theorem number_hex (n : Nat) : number 16 (hex n) = n := by
  unfold number
  rw [List.takeWhile_eq_self_iff.mpr, foldl_hex]
  intro c hc
  exact decide_eq_true (digit_of_mem_hex c hc)

/-- What was printed is read again. -/
theorem strtoull_hex (h : n < 2 ^ 64) : strtoull (bytes "0x" ++ hex n) = .ofNat n := by
  have hspace : (bytes "0x" ++ hex n).dropWhile isSpace = bytes "0x" ++ hex n := rfl
  have hbase : numberBase (bytes "0x" ++ hex n) = (16, hex n) := by
    obtain ⟨c, s, hc⟩ := List.exists_cons_of_ne_nil (hex_ne_nil n)
    have hdigit : digitValue c < 16 := digit_of_mem_hex c (hc ▸ List.mem_cons_self)
    rw [hc]
    exact if_pos ⟨.inl rfl, hdigit⟩
  have hsign : (bytes "0x" ++ hex n).head? = some 0x30 := rfl
  unfold strtoull
  rw [hspace]
  simp only [hsign, show (some (0x30 : UInt8) = some 0x2D) = False by decide,
    show (some (0x30 : UInt8) = some 0x2B) = False by decide, or_self, if_false, hbase, number_hex,
    ge_iff_le, Nat.not_le.mpr h]

theorem length_hex_le {k : Nat} (hk : 0 < k) : (hex n).length ≤ k ↔ n < 16 ^ k := by
  unfold hex
  rw [List.length_map, Nat.length_toDigits_le_iff (by decide) hk]

/-- Without its last digit. -/
theorem dropLast_hex (h : 16 ≤ n) : (hex n).dropLast = hex (n / 16) := by
  rw [hex_eq, if_neg (by omega), List.dropLast_concat]

/-! ## Parts -/

theorem splitFrom_append (h : sep ∉ s) (rest : List UInt8) :
    splitFrom sep part (s ++ sep :: rest) =
      (if part ++ s = [] then [] else [part ++ s]) ++ splitFrom sep [] rest := by
  induction s generalizing part with
  | nil => simp [splitFrom]
  | cons c s ih =>
      rw [List.mem_cons, not_or] at h
      rw [List.cons_append, splitFrom, if_neg (Ne.symm h.1), ih h.2]
      simp

theorem splitFrom_self (h : sep ∉ s) :
    splitFrom sep part s = if part ++ s = [] then [] else [part ++ s] := by
  induction s generalizing part with
  | nil => simp [splitFrom]
  | cons c s ih =>
      rw [List.mem_cons, not_or] at h
      rw [splitFrom, if_neg (Ne.symm h.1), ih h.2]
      simp

end CString

namespace MsrItem

open CString

/-! ## Writing and reading -/

variable {item : MsrItem} {n m : Nat} {s : List UInt8}

theorem colon_not_mem (n : Nat) : (0x3A : UInt8) ∉ bytes "0x" ++ hex n := by
  intro h
  rw [List.mem_append] at h
  obtain h | h := h
  · revert h
    decide
  · exact absurd (digit_of_mem_hex _ h) (by decide)

theorem hex_ne_nil (n : Nat) : bytes "0x" ++ hex n ≠ [] := by
  simp [CString.hex_ne_nil]

/-- Two numbers, or three. -/
theorem split_text (n m : Nat) (rest : List UInt8) (hrest : (0x3A : UInt8) ∉ rest) :
    split 0x3A (bytes "0x" ++ hex n ++ bytes ":0x" ++ hex m) =
        [bytes "0x" ++ hex n, bytes "0x" ++ hex m] ∧
      split 0x3A (bytes "0x" ++ hex n ++ bytes ":0x" ++ hex m ++ 0x3A :: rest) =
        [bytes "0x" ++ hex n, bytes "0x" ++ hex m] ++ if rest = [] then [] else [rest] := by
  have hcolon : bytes ":0x" = 0x3A :: bytes "0x" := rfl
  have hsplit : ∀ s : List UInt8, split 0x3A (bytes "0x" ++ hex n ++ 0x3A :: s) =
      (bytes "0x" ++ hex n) :: splitFrom 0x3A [] s := by
    intro s
    unfold split
    rw [if_neg (by simp), splitFrom_append (colon_not_mem n), List.nil_append,
      if_neg (hex_ne_nil n)]
    rfl
  constructor
  · rw [hcolon, List.append_assoc _ (_ :: _), List.cons_append, hsplit,
      splitFrom_self (colon_not_mem m), List.nil_append, if_neg (hex_ne_nil m)]
  · rw [hcolon, List.append_assoc _ (_ :: _), List.append_assoc, List.cons_append, List.cons_append,
      hsplit, splitFrom_append (colon_not_mem m), List.nil_append, if_neg (hex_ne_nil m),
      splitFrom_self hrest, List.nil_append]
    rfl

theorem toUInt32_strtoull (r : UInt32) :
    (strtoull (bytes "0x" ++ hex r.toNat)).toUInt32 = r := by
  have hlt := r.toNat_lt
  rw [strtoull_hex (by omega)]
  apply UInt32.toNat_inj.mp
  rw [UInt64.toNat_toUInt32, UInt64.toNat_ofNat']
  omega

theorem strtoull_toNat (v : UInt64) : strtoull (bytes "0x" ++ hex v.toNat) = v := by
  rw [strtoull_hex v.toNat_lt, UInt64.ofNat_toNat]

/-- The whole text, and the text whose mask lacks a digit. -/
theorem ofText_text (item : MsrItem) : ofText item.text = item := by
  unfold text ofText
  split_ifs with hmask
  · have hcolon : bytes ":0x" ++ hex item.mask.toNat = 0x3A :: (bytes "0x" ++ hex item.mask.toNat) :=
      rfl
    rw [hcolon, (split_text _ _ _ (colon_not_mem _)).2, if_neg (hex_ne_nil _)]
    simp only [List.cons_append, List.nil_append, toUInt32_strtoull, strtoull_toNat]
  · rw [not_not] at hmask
    rw [List.append_nil, (split_text _ _ [] (by simp)).1]
    simp only [toUInt32_strtoull, strtoull_toNat, ← hmask]

theorem length_text (item : MsrItem) : item.text.length =
    (hex item.reg.toNat).length + (hex item.value.toNat).length + 5 +
      if item.mask ≠ kNoMask then (hex item.mask.toNat).length + 3 else 0 := by
  unfold text
  split_ifs <;>
  · simp only [List.length_append, List.length_nil, show (bytes "0x").length = 2 from rfl,
      show (bytes ":0x").length = 3 from rfl]
    omega

/-- The text fits unless all three numbers have all their digits; then it is one too long. -/
theorem length_text_le (item : MsrItem) :
    (item.Fits → item.text.length ≤ 47) ∧ (¬ item.Fits → item.text.length = 48) := by
  have hreg : (hex item.reg.toNat).length ≤ 8 := by
    have hlt := item.reg.toNat_lt
    rw [length_hex_le (by decide)]
    omega
  have h64 : ∀ v : UInt64, (hex v.toNat).length ≤ 16 := by
    intro v
    have hlt := v.toNat_lt
    rw [length_hex_le (by decide)]
    omega
  have hvalue := h64 item.value
  have hmask := h64 item.mask
  have hreg' := length_hex_le (n := item.reg.toNat) (k := 7) (by decide)
  have hvalue' := length_hex_le (n := item.value.toNat) (k := 15) (by decide)
  have hmask' := length_hex_le (n := item.mask.toNat) (k := 15) (by decide)
  rw [length_text]
  unfold Fits
  split_ifs with hno
  · simp only [hno, ne_eq, not_false_eq_true, and_true]
    omega
  · simp only [hno, and_false, not_false_eq_true, not_true_eq_false, false_implies, and_true]
    omega

theorem cstr_toString (item : MsrItem) : Json.cstr item.toString = item.toString := by
  have hhex : ∀ n, ∀ c ∈ hex n, c ≠ 0 := by
    intro n c hc h0
    have hdigit := digit_of_mem_hex c hc
    rw [h0] at hdigit
    revert hdigit
    decide
  have hsign : ∀ c, c ∈ bytes "0x" ∨ c ∈ bytes ":0x" → c ≠ 0 := by
    intro c hc h0
    rw [h0] at hc
    revert hc
    simp [show bytes "0x" = [0x30, 0x78] from rfl, show bytes ":0x" = [0x3A, 0x30, 0x78] from rfl]
  have htext : ∀ c ∈ item.text, c ≠ 0 := by
    unfold text
    intro c hc
    split_ifs at hc <;> simp only [List.mem_append, List.not_mem_nil, or_false] at hc <;>
      grind
  unfold Json.cstr
  rw [List.takeWhile_eq_self_iff]
  intro c hc
  exact bne_iff_ne.mpr (htext c (List.mem_of_mem_take hc))

/-- **An item read again** has lost the last digit of its mask, if its text does not fit. -/
theorem ofJSON_toJSON (item : MsrItem) :
    ofJSON item.toJSON = if item.Fits then item else { item with mask := item.mask / 16 } := by
  show ofText (Json.cstr item.toString) = _
  rw [cstr_toString]
  show ofText (item.text.take 47) = _
  split_ifs with hfits
  · rw [List.take_of_length_le ((length_text_le item).1 hfits), ofText_text]
  · have hlast : item.text.take 47 = item.text.dropLast := by
      rw [List.dropLast_eq_take, (length_text_le item).2 hfits]
    have hbig : 2 ^ 60 ≤ item.mask.toNat ∧ item.mask ≠ kNoMask := (not_not.mp hfits).2.2
    have hmask : (item.mask / 16).toNat = item.mask.toNat / 16 := by
      rw [UInt64.toNat_div]
      rfl
    have hdrop : (bytes ":0x" ++ hex item.mask.toNat).dropLast =
        0x3A :: (bytes "0x" ++ hex (item.mask / 16).toNat) := by
      rw [List.dropLast_append_of_ne_nil (CString.hex_ne_nil _), dropLast_hex (by omega), hmask]
      rfl
    rw [hlast]
    unfold text
    rw [if_pos hbig.2, List.dropLast_append_of_ne_nil (by simp [CString.hex_ne_nil]), hdrop]
    unfold ofText
    rw [(split_text _ _ _ (colon_not_mem _)).2, if_neg (hex_ne_nil _)]
    simp only [List.cons_append, List.nil_append, toUInt32_strtoull, strtoull_toNat]

/-- A register is kept in any case. -/
theorem isValid_ofJSON_toJSON (item : MsrItem) : (ofJSON item.toJSON).isValid = item.isValid := by
  rw [ofJSON_toJSON]
  split_ifs <;> rfl

theorem ofJSON_toJSON_iff (item : MsrItem) : ofJSON item.toJSON = item ↔ item.Fits := by
  rw [ofJSON_toJSON]
  split_ifs with hfits
  · exact iff_of_true rfl hfits
  · refine iff_of_false ?_ hfits
    intro h
    have hbig : 2 ^ 60 ≤ item.mask.toNat := (not_not.mp hfits).2.2.1
    have hmask : (item.mask / 16).toNat = item.mask.toNat := congrArg (·.mask.toNat) h
    have hdiv : (item.mask / 16).toNat = item.mask.toNat / 16 := by
      rw [UInt64.toNat_div]
      rfl
    omega

end MsrItem

end XLArig
