import XLArig.Escapes
import XLArig.Memory
import XLArig.Pool.Written
import XLArig.Sure

/-!
# XLArig.Log

`base/io/log/Log`: how `LogPrivate::print` puts a line together in its buffer, and what it passes
to the backends.

A text that fits makes a line that is well formed, whatever is in it.  Of a text that does not, the
last byte that is counted is the terminator, and what follows is behind it (`print_iff`).
-/

namespace XLArig

namespace Log

open CString

/-! ## Colours -/

def kMaxBufferSize : Nat := 16384

def CSI : List UInt8 := [0x1B, 0x5B]

def CLEAR : List UInt8 := CSI ++ bytes "0m"

def BRIGHT_BLACK_S : List UInt8 := CSI ++ bytes "0;90m"

def RED_S : List UInt8 := CSI ++ bytes "0;31m"

def RED_BOLD_S : List UInt8 := CSI ++ bytes "1;31m"

def YELLOW_S : List UInt8 := CSI ++ bytes "0;33m"

def WHITE_BOLD_S : List UInt8 := CSI ++ bytes "1;37m"

/-- The macros `_WIN32` and `XMRIG_OS_APPLE`. -/
structure Build where
  windows : Bool
  apple : Bool

def BLACK_BOLD_S (build : Build) : List UInt8 :=
  CSI ++ if build.apple then bytes "0;37m" else bytes "1;30m"

inductive Level
  | NONE
  | EMERG
  | ALERT
  | CRIT
  | ERR
  | WARNING
  | NOTICE
  | INFO
  | DEBUG
  deriving DecidableEq

/-- `colors_map`, and nothing for `NONE`. -/
def color (build : Build) : Level → List UInt8
  | .NONE | .INFO => []
  | .EMERG | .ALERT | .CRIT => RED_BOLD_S
  | .ERR => RED_S
  | .WARNING => YELLOW_S
  | .NOTICE => WHITE_BOLD_S
  | .DEBUG => if build.windows then BLACK_BOLD_S build else BRIGHT_BLACK_S

/-- The line end. -/
def eol (build : Build) : List UInt8 := if build.windows then [0x0D, 0x0A] else [0x0A]

/-! ## The timestamp -/

/-- `tm`, as `localtime` fills it, with the year in full; all is zero where that fails. -/
structure Tm where
  year : Nat
  mon : Fin 12
  mday : Fin 32
  hour : Fin 24
  min : Fin 60
  sec : Fin 61
  year_lt : year < 2 ^ 31

/-- What `%0*d` prints. -/
def padded (width n : Nat) : List UInt8 :=
  List.replicate (width - (decimal n).length) 0x30 ++ decimal n

def date (tm : Tm) : List UInt8 :=
  bytes "[" ++ decimal tm.year ++ bytes "-" ++ padded 2 (tm.mon + 1) ++ bytes "-" ++
    padded 2 tm.mday ++ bytes " " ++ padded 2 tm.hour ++ bytes ":" ++ padded 2 tm.min ++
    bytes ":" ++ padded 2 tm.sec

def millis (ts : Nat) : List UInt8 := bytes "." ++ padded 3 (ts % 1000)

/-- The text of a timestamp; `ts` is in milliseconds. -/
def stamp (build : Build) (level : Level) (ts : Nat) (tm : Tm) : List UInt8 :=
  if level = .NONE then []
  else date tm ++ (BLACK_BOLD_S build ++ millis ts ++ CLEAR) ++ bytes "] "

/-! ## The buffer -/

/-- What `print` does not expect: a byte outside of `m_buf`, and a loop that goes on. -/
inductive Fault
  | outside
  | running
  deriving DecidableEq

/-- `memcpy` to a place in `m_buf`. -/
def store (m : Memory) (pos : Nat) (l : List UInt8) : Except Fault Memory :=
  if pos + l.length ≤ kMaxBufferSize then .ok (m.copy pos (fun i => l.getD i 0) l.length)
  else .error .outside

/-- `snprintf` to a place in `m_buf`; it fails where the length is no `int`. -/
def snprintf (m : Memory) (pos n : Nat) (text : List UInt8) :
    Except Fault (Memory × Option Nat) := do
  if 2 ^ 31 ≤ text.length then .ok (m, none)
  else if n = 0 then .ok (m, some text.length)
  else
    let m ← store m pos (text.take (n - 1) ++ [0])
    .ok (m, some text.length)

/-- `sizeof (m_buf) - offset - 32`, a difference of unsigned numbers. -/
def room (offset : Nat) : Nat := (kMaxBufferSize + 2 ^ 64 - offset - 32) % 2 ^ 64

/-- `timestamp`: the size so far. -/
def timestamp (build : Build) (m : Memory) (level : Level) (ts : Nat) (tm : Tm) :
    Except Fault (Memory × Nat) :=
  if level = .NONE then .ok (m, 0)
  else do
    let x ← snprintf m 0 (kMaxBufferSize - 1) (stamp build level ts tm)
    .ok (x.1, x.2.getD 0)

/-- The line is put together; `some` has the offset and the size. -/
def compose (build : Build) (m : Memory) (level : Level) (ts : Nat) (tm : Tm)
    (text : List UInt8) : Except Fault (Memory × Option (Nat × Nat)) := do
  let x ← timestamp build m level ts tm
  let offset := x.2
  let m ← store x.1 offset (color build level)
  let size := offset + (color build level).length
  let x ← snprintf m size (room offset) text
  match x.2 with
  | none => .ok (x.1, none)
  | some rc => do
      let size := size + min rc (room offset)
      let m ← store x.1 size (CLEAR ++ eol build ++ [0])
      .ok (m, some (offset, size + (CLEAR ++ eol build).length))

/-- The text in the buffer, up to the terminator. -/
def read (m : Memory) : Except Fault (List UInt8) :=
  let s := m.slice 0 kMaxBufferSize
  if 0 ∈ s then .ok (s.takeWhile (· ≠ 0)) else .error .outside

/-! ## The colour-free copy -/

def npos : Nat := 2 ^ 64 - 1

/-- `std::string::find`. -/
def find (s sub : List UInt8) (pos : Nat) : Nat :=
  match strstr sub (s.drop pos) with
  | some t => s.length - t.length
  | none => npos

/-- `std::string::erase`. -/
def erase (s : List UInt8) (i count : Nat) : List UInt8 := s.take i ++ s.drop (i + count)

/-- The loop that takes out escape sequences, for `fuel` passes. -/
def strip : (fuel : Nat) → List UInt8 → Except Fault (List UInt8)
  | fuel, s =>
      let i := find s CSI 0
      if i = npos then .ok s
      else
        match fuel with
        | 0 => .error .running
        | fuel + 1 => strip fuel (erase s i ((find s [0x6D] i + 2 ^ 64 - i + 1) % 2 ^ 64))

/-! ## Printing -/

/-- `ILogBackend::print`; `line` is what the pointer points to. -/
structure Message where
  ts : Nat
  level : Level
  line : Memory
  offset : Nat
  size : Nat
  colors : Bool

/-- What a call of `print` passes on: to the backends, or else to `stdout`. -/
structure Output where
  messages : List Message
  stdout : List UInt8

/-- What a backend is passed: the buffer, and the copy of it without colours. -/
def passed (ts : Nat) (level : Level) (m : Memory) (offset size : Nat) (txt : List UInt8) :
    List Message :=
  [⟨ts, level, m, offset, size, true⟩,
    ⟨ts, level, fun i => txt.getD i 0, if offset ≠ 0 then offset - 11 else 0, txt.length, false⟩]

/-- `LogPrivate::print`, of a text that is formatted; `tm` is the local time of `ts`. -/
def print (build : Build) (fuel : Nat) (background : Bool) (backends : Nat) (m : Memory)
    (level : Level) (ts : Nat) (tm : Tm) (text : List UInt8) : Except Fault (Memory × Output) :=
  if background ∧ backends = 0 then .ok (m, ⟨[], []⟩)
  else do
    let x ← compose build m level ts tm text
    match x.2 with
    | none => .ok (x.1, ⟨[], []⟩)
    | some (offset, size) => do
        let txt ← read x.1
        let txt ← strip fuel txt
        if 0 < backends then
          .ok (x.1, ⟨(List.replicate backends (passed ts level x.1 offset size txt)).flatten, []⟩)
        else .ok (x.1, ⟨[], txt⟩)

/-! ## Letters -/

section

variable {n width : Nat} {l l' : List UInt8}

/-- Text that neither begins an escape sequence nor ends one nor ends the text. -/
def Plain (l : List UInt8) : Prop := ∀ c ∈ l, c ≠ 0 ∧ c ≠ 0x1B

instance (l : List UInt8) : Decidable (Plain l) := inferInstanceAs (Decidable (∀ c ∈ l, _))

theorem Plain.append (h : Plain l) (h' : Plain l') : Plain (l ++ l') :=
  List.forall_mem_append.mpr ⟨h, h'⟩

theorem plain_decimal (n : Nat) : Plain (decimal n) := by
  intro c hc
  have hpos : ¬ (n : Int) < 0 := by omega
  rw [decimal, if_neg hpos, List.nil_append] at hc
  obtain ⟨d, hd, rfl⟩ := List.mem_map.mp hc
  have hdigit := Nat.isDigit_of_mem_toDigits (by decide : 0 < 10) (by decide) hd
  simp only [Char.isDigit, Bool.and_eq_true, decide_eq_true_eq, UInt32.le_iff_toNat_le] at hdigit
  obtain ⟨hlow, hhigh⟩ : 48 ≤ d.toNat ∧ d.toNat ≤ 57 := hdigit
  have hbyte : d.toNat.toUInt8.toNat = d.toNat := Nat.mod_eq_of_lt (by omega)
  refine ⟨fun h => ?_, fun h => ?_⟩
  all_goals
    rw [h] at hbyte
    simp at hbyte
    omega

theorem plain_padded (width n : Nat) : Plain (padded width n) := by
  refine Plain.append (fun c hc => ?_) (plain_decimal n)
  rw [List.eq_of_mem_replicate hc]
  decide

theorem plain_date (tm : Tm) : Plain (date tm) := by
  have hopen : Plain (bytes "[") := by decide +kernel
  have hdash : Plain (bytes "-") := by decide +kernel
  have hspace : Plain (bytes " ") := by decide +kernel
  have hcolon : Plain (bytes ":") := by decide +kernel
  have hmon := ((hopen.append (plain_decimal tm.year)).append hdash).append
    (plain_padded 2 (tm.mon + 1))
  have hday := (hmon.append hdash).append (plain_padded 2 tm.mday)
  have hhour := (hday.append hspace).append (plain_padded 2 tm.hour)
  have hmin := (hhour.append hcolon).append (plain_padded 2 tm.min)
  exact (hmin.append hcolon).append (plain_padded 2 tm.sec)

theorem plain_millis (ts : Nat) : Plain (millis ts) := by
  have hdot : Plain (bytes ".") := by decide +kernel
  exact hdot.append (plain_padded 3 (ts % 1000))

theorem length_decimal_le {k : Nat} (hk : 0 < k) (h : n < 10 ^ k) : (decimal n).length ≤ k := by
  have hpos : ¬ (n : Int) < 0 := by omega
  rw [decimal, if_neg hpos, List.nil_append, List.length_map]
  exact (Nat.length_toDigits_le_iff (by decide) hk).mpr h

theorem length_padded (hwidth : 0 < width) (h : n < 10 ^ width) :
    (padded width n).length = width := by
  have hle := length_decimal_le hwidth h
  rw [padded, List.length_append, List.length_replicate]
  omega

theorem length_date (tm : Tm) : (date tm).length ≤ 30 := by
  have hyear : (decimal tm.year).length ≤ 10 :=
    length_decimal_le (by decide) (tm.year_lt.trans (by decide))
  have htwo : ∀ n < 100, (padded 2 n).length = 2 := fun n hn => length_padded (by decide) hn
  have hone : (bytes "[").length = 1 ∧ (bytes "-").length = 1 ∧ (bytes " ").length = 1 ∧
    (bytes ":").length = 1 := by decide +kernel
  have hmon := tm.mon.isLt
  have hmday := tm.mday.isLt
  have hhour := tm.hour.isLt
  have hmin := tm.min.isLt
  have hsec := tm.sec.isLt
  simp only [date, List.length_append, hone, htwo _ (show (tm.mon : Nat) + 1 < 100 by omega),
    htwo _ (show (tm.mday : Nat) < 100 by omega), htwo _ (show (tm.hour : Nat) < 100 by omega),
    htwo _ (show (tm.min : Nat) < 100 by omega), htwo _ (show (tm.sec : Nat) < 100 by omega)]
  omega

theorem length_millis (ts : Nat) : (millis ts).length = 4 := by
  have hdot : (bytes ".").length = 1 := rfl
  have hms : ts % 1000 < 10 ^ 3 := Nat.mod_lt _ (by decide)
  rw [millis, List.length_append, hdot, length_padded (by decide) hms]

end

/-! ## What is written -/

/-- The timestamp without its colours. -/
def plainStamp (level : Level) (ts : Nat) (tm : Tm) : List UInt8 :=
  if level = .NONE then [] else date tm ++ millis ts ++ bytes "] "

/-- The text fits behind a timestamp: there is room for it and the terminator. -/
def Fits (build : Build) (level : Level) (ts : Nat) (tm : Tm) (text : List UInt8) : Prop :=
  text.length + (stamp build level ts tm).length + 32 < kMaxBufferSize

instance (build : Build) (level : Level) (ts : Nat) (tm : Tm) (text : List UInt8) :
    Decidable (Fits build level ts tm text) := inferInstanceAs (Decidable (_ < _))

/-- What stands before `CLEAR`: of a text that does not fit, a part and a terminator. -/
def content (build : Build) (level : Level) (ts : Nat) (tm : Tm) (text : List UInt8) :
    List UInt8 :=
  stamp build level ts tm ++ color build level ++
    if Fits build level ts tm text then text
    else text.take (room (stamp build level ts tm).length - 1) ++ [0]

/-- The buffer begins with a text. -/
def Reads (m : Memory) (l : List UInt8) : Prop := ∀ (i : Nat) (x : UInt8), l[i]? = some x → m i = x

section

variable {build : Build} {level : Level} {ts n offset : Nat} {tm : Tm} {m : Memory}
variable {l l' text : List UInt8}

theorem length_stamp (build : Build) (level : Level) (ts : Nat) (tm : Tm) :
    (stamp build level ts tm).length =
      (plainStamp level ts tm).length + if level = .NONE then 0 else 11 := by
  have hblack : (BLACK_BOLD_S build).length = 7 := by
    unfold BLACK_BOLD_S
    cases build.apple <;> rfl
  have hclear : CLEAR.length = 4 := rfl
  unfold stamp plainStamp
  split
  · rfl
  · simp only [List.length_append, hblack, hclear]
    omega

theorem length_plainStamp (level : Level) (ts : Nat) (tm : Tm) :
    (plainStamp level ts tm).length ≤ 36 := by
  have hdate := length_date tm
  have hbytes : (bytes "] ").length = 2 := rfl
  unfold plainStamp
  split
  · exact Nat.zero_le _
  · simp only [List.length_append, length_millis, hbytes]
    omega

theorem length_stamp_le (build : Build) (level : Level) (ts : Nat) (tm : Tm) :
    (stamp build level ts tm).length ≤ 47 := by
  have hplain := length_plainStamp level ts tm
  rw [length_stamp]
  split <;> omega

theorem length_color (build : Build) (level : Level) : (color build level).length ≤ 7 := by
  obtain ⟨windows, apple⟩ := build
  cases level <;> cases windows <;> cases apple <;> decide +kernel

theorem length_end (build : Build) : (CLEAR ++ eol build ++ [0]).length ≤ 7 := by
  obtain ⟨windows, apple⟩ := build
  cases windows <;> cases apple <;> decide +kernel

theorem room_eq (h : offset ≤ 47) : room offset = 16352 - offset := by
  unfold room kMaxBufferSize
  omega

theorem Reads.of_append (h : Reads m (l ++ l')) : Reads m l := by
  intro i x hi
  obtain ⟨hlt, -⟩ := List.getElem?_eq_some_iff.mp hi
  exact h i x (by rw [List.getElem?_append_left hlt, hi])

/-- The rule for `memcpy` behind what is there. -/
theorem store_sure (h : Reads m l) (hlen : l.length + l'.length ≤ kMaxBufferSize) :
    (store m l.length l').Sure fun m' => Reads m' (l ++ l') := by
  rw [store, if_pos hlen]
  intro i x hi
  rcases Nat.lt_or_ge i l.length with hlt | hge
  · rw [List.getElem?_append_left hlt] at hi
    rw [Memory.copy_of_disjoint (.inl hlt)]
    exact h i x hi
  · obtain ⟨k, rfl⟩ := Nat.exists_eq_add_of_le hge
    rw [List.getElem?_append_right (by omega), Nat.add_sub_cancel_left] at hi
    obtain ⟨hk, -⟩ := List.getElem?_eq_some_iff.mp hi
    rw [Memory.copy_of_mem hk, List.getD_eq_getElem?_getD, hi]
    rfl

/-- The rule for `snprintf` behind what is there. -/
theorem snprintf_sure (h : Reads m l) (hn : 0 < n) (hlen : l.length + n ≤ kMaxBufferSize)
    (htext : text.length < 2 ^ 31) : (snprintf m l.length n text).Sure fun x =>
      Reads x.1 (l ++ (text.take (n - 1) ++ [0])) ∧ x.2 = some text.length := by
  have hwritten : (text.take (n - 1) ++ [0]).length ≤ n := by
    rw [List.length_append, List.length_take, List.length_singleton]
    omega
  have hlt : ¬ 2 ^ 31 ≤ text.length := by omega
  rw [snprintf, if_neg hlt, if_neg hn.ne']
  exact (store_sure h (by omega)).bind fun m' hm' => ⟨hm', rfl⟩

theorem timestamp_sure (build : Build) (m : Memory) (level : Level) (ts : Nat) (tm : Tm) :
    (timestamp build m level ts tm).Sure fun x =>
      Reads x.1 (stamp build level ts tm) ∧ x.2 = (stamp build level ts tm).length := by
  have hle := length_stamp_le build level ts tm
  have hnil : Reads m [] := fun i x hi => by simp at hi
  unfold timestamp
  refine Except.sure_ite (fun hnone => ?_) fun hsome => ?_
  · rw [stamp, if_pos hnone]
    exact ⟨hnil, rfl⟩
  · refine (snprintf_sure hnil (by decide) (by decide) (by omega)).bind fun x hx => ?_
    rw [List.take_of_length_le (by unfold kMaxBufferSize; omega), List.nil_append] at hx
    exact ⟨hx.1.of_append, congrArg (·.getD 0) hx.2⟩

/-- Nothing is written outside of the buffer; what is there in the end, and its size. -/
theorem compose_sure (build : Build) (m : Memory) (level : Level) (ts : Nat) (tm : Tm)
    (htext : text.length < 2 ^ 31) : (compose build m level ts tm text).Sure fun x =>
      Reads x.1 (content build level ts tm text ++ (CLEAR ++ eol build ++ [0])) ∧
        x.2 = some ((stamp build level ts tm).length,
          (content build level ts tm text ++ (CLEAR ++ eol build)).length) := by
  have hstamp := length_stamp_le build level ts tm
  have hcolor := length_color build level
  have hend := length_end build
  have hmax : kMaxBufferSize = 16384 := rfl
  have hroom := room_eq hstamp
  unfold compose
  refine (timestamp_sure build m level ts tm).bind ?_
  rintro ⟨m, offset⟩ ⟨hm, rfl⟩
  refine (store_sure hm (by omega)).bind fun m hm => ?_
  have hsize : (stamp build level ts tm).length + (color build level).length =
      (stamp build level ts tm ++ color build level).length := List.length_append.symm
  dsimp only
  rw [hsize]
  have hlength : (stamp build level ts tm ++ color build level).length ≤ 54 := by omega
  refine (snprintf_sure hm (by omega) (by omega) htext).bind ?_
  rintro ⟨m, rc⟩ ⟨hm, rfl⟩
  dsimp only
  have hcontent : Reads m (content build level ts tm text) ∧
      (content build level ts tm text).length =
        (stamp build level ts tm ++ color build level).length +
          min text.length (room (stamp build level ts tm).length) := by
    unfold content
    split
    · next hfits =>
      unfold Fits at hfits
      rw [List.take_of_length_le (by omega), ← List.append_assoc] at hm
      refine ⟨hm.of_append, ?_⟩
      rw [List.length_append, Nat.min_eq_left (by omega)]
    · next hfits =>
      unfold Fits at hfits
      refine ⟨hm, ?_⟩
      simp only [List.length_append, List.length_take, List.length_singleton]
      omega
  rw [← hcontent.2]
  refine (store_sure hcontent.1 (by omega)).bind fun m hm => ⟨hm, ?_⟩
  exact congrArg (fun n => some ((stamp build level ts tm).length, n)) List.length_append.symm

end

/-! ## What is taken out -/

/-- A text without its escape sequences. -/
abbrev uncolored (l : List UInt8) : List UInt8 := Escapes.remove 0x1B 0x5B 0x6D l

/-- Nothing begins an escape sequence. -/
abbrev Uncolored (l : List UInt8) : Prop := Escapes.Free 0x1B 0x5B l

section

variable {build : Build} {level : Level} {ts fuel : Nat} {tm : Tm} {a b c s l : List UInt8}

theorem free_of_plain (h : Plain l) : Uncolored l := by
  rintro ⟨x, y, rfl⟩
  exact (h 0x1B (by simp)).2 rfl

theorem strstr_csi (h : Uncolored (a ++ [0x1B])) (b : List UInt8) :
    strstr CSI (a ++ CSI ++ b) = some (CSI ++ b) := by
  induction a with
  | nil => exact if_pos (List.prefix_append CSI b)
  | cons x a ih =>
      have hrest : Uncolored (a ++ [0x1B]) := fun hin =>
        h (hin.trans (List.suffix_cons x _).isInfix)
      have hnot : ¬ CSI <+: x :: (a ++ CSI ++ b) := by
        rintro hpre
        obtain ⟨hx, hnext⟩ := List.cons_prefix_cons.mp hpre
        cases a with
        | nil => exact absurd (List.cons_prefix_cons.mp hnext).1 (by decide)
        | cons y a =>
            obtain ⟨hy, -⟩ := List.cons_prefix_cons.mp hnext
            exact h ⟨[], a ++ [0x1B], by rw [← hx, ← hy]; rfl⟩
      have hcons : strstr CSI (x :: (a ++ CSI ++ b)) = strstr CSI (a ++ CSI ++ b) := if_neg hnot
      exact hcons.trans (ih hrest)

theorem strstr_csi_none (h : Uncolored s) : strstr CSI s = none := by
  induction s with
  | nil => rfl
  | cons x s ih =>
      have hnot : ¬ CSI <+: x :: s := fun hpre => h hpre.isInfix
      have hrest : Uncolored s := fun hin => h (hin.trans (List.suffix_cons x s).isInfix)
      have hcons : strstr CSI (x :: s) = strstr CSI s := if_neg hnot
      exact hcons.trans (ih hrest)

theorem strip_done (h : Uncolored s) : strip fuel s = .ok s := by
  have hfind : find s CSI 0 = npos := by simp [find, strstr_csi_none h]
  cases fuel <;> exact if_pos hfind

/-- One pass takes out the first sequence. -/
theorem strip_first (ha : Uncolored (a ++ [0x1B])) (hb : 0x6D ∉ b)
    (hlen : (a ++ CSI ++ (b ++ 0x6D :: c)).length < 2 ^ 63) :
    strip (fuel + 1) (a ++ CSI ++ (b ++ 0x6D :: c)) = strip fuel (a ++ c) := by
  have hcsi : find (a ++ CSI ++ (b ++ 0x6D :: c)) CSI 0 = a.length := by
    unfold find
    rw [List.drop_zero, strstr_csi ha]
    simp [CSI]
  have hm : find (a ++ CSI ++ (b ++ 0x6D :: c)) [0x6D] a.length = a.length + 2 + b.length := by
    have hnot : (0x6D : UInt8) ∉ CSI ++ b := by simpa [CSI] using hb
    have hstr : strstr [0x6D] (CSI ++ b ++ 0x6D :: c) = some (0x6D :: c) := strstr_append hnot c
    unfold find
    rw [List.append_assoc, List.drop_left, ← List.append_assoc, hstr]
    simp [CSI]
    omega
  have hlong : a.length + 2 + b.length < 2 ^ 63 := by
    simp only [List.length_append, List.length_cons] at hlen
    have hcsi : CSI.length = 2 := rfl
    omega
  have hcount : (a.length + 2 + b.length + 2 ^ 64 - a.length + 1) % 2 ^ 64 = b.length + 3 := by
    omega
  have hne : ¬ a.length = npos := by
    unfold npos
    omega
  have herase : erase (a ++ CSI ++ (b ++ 0x6D :: c)) a.length (b.length + 3) = a ++ c := by
    have hsplit : a ++ CSI ++ (b ++ 0x6D :: c) = a ++ ((CSI ++ b ++ [0x6D]) ++ c) := by simp
    have hseq : b.length + 3 = (CSI ++ b ++ [0x6D]).length := by simp [CSI]
    unfold erase
    rw [hsplit, List.take_left, ← List.drop_drop, List.drop_left, hseq, List.drop_left]
  rw [strip, hcsi, if_neg hne, hm, hcount, herase]

/-- What holds after the first pass holds of all of them. -/
theorem strip_next (ha : Uncolored (a ++ [0x1B])) (hb : 0x6D ∉ b)
    (hlen : (a ++ CSI ++ (b ++ 0x6D :: c)).length < 2 ^ 63)
    (hrest : ∃ fuel, strip fuel (a ++ c) = .ok (uncolored (a ++ c))) :
    ∃ fuel, strip fuel (a ++ CSI ++ (b ++ 0x6D :: c)) =
      .ok (uncolored (a ++ CSI ++ (b ++ 0x6D :: c))) := by
  obtain ⟨fuel, hfuel⟩ := hrest
  have hremove : uncolored (a ++ CSI ++ (b ++ 0x6D :: c)) = uncolored (a ++ c) := by
    have hcons : a ++ CSI ++ (b ++ 0x6D :: c) = a ++ 0x1B :: 0x5B :: (b ++ 0x6D :: c) := by
      simp [CSI]
    rw [hcons]
    exact Escapes.remove_first ha hb c
  exact ⟨fuel + 1, by rw [strip_first ha hb hlen, hfuel, hremove]⟩

/-- Where a sequence stands first that is not closed, a pass takes nothing out. -/
theorem strip_stuck (hb : 0x6D ∉ b) (fuel : Nat) : strip fuel (CSI ++ b) = .error .running := by
  have hcsi : find (CSI ++ b) CSI 0 = 0 := by
    have hstr : strstr CSI (CSI ++ b) = some (CSI ++ b) := if_pos (List.prefix_append CSI b)
    simp [find, hstr]
  have hnone : ∀ s : List UInt8, 0x6D ∉ s → strstr [0x6D] s = none := by
    intro s hs
    induction s with
    | nil => rfl
    | cons x s ih =>
        obtain ⟨hx, hs⟩ : 0x6D ≠ x ∧ 0x6D ∉ s := by simpa using hs
        have hcons : strstr [0x6D] (x :: s) = strstr [0x6D] s := if_neg (by simpa using hx)
        exact hcons.trans (ih hs)
  have hm : find (CSI ++ b) [0x6D] 0 = npos := by
    have hnot : (0x6D : UInt8) ∉ CSI ++ b := by simpa [CSI] using hb
    simp [find, hnone _ hnot]
  have hcount : (npos + 2 ^ 64 - 0 + 1) % 2 ^ 64 = 0 := rfl
  have hne : ¬ 0 = npos := by decide
  induction fuel with
  | zero => rw [strip, hcsi, if_neg hne]
  | succ fuel ih =>
      rw [strip, hcsi, if_neg hne, hm, hcount]
      exact ih

theorem uncolored_append_eol (build : Build) (ha : Uncolored a) :
    Uncolored (a ++ eol build) := by
  refine ha.append ?_
  unfold eol
  cases build.windows <;> decide

theorem clear_eq : CLEAR = CSI ++ [0x30, 0x6D] := rfl

/-- A text that ends with `CLEAR` and a line end loses its sequences one after another. -/
theorem strip_line (build : Build) (u : List UInt8)
    (hlen : (u ++ CLEAR ++ eol build).length < 2 ^ 63) :
    ∃ fuel, strip fuel (u ++ CLEAR ++ eol build) = .ok (uncolored (u ++ CLEAR ++ eol build)) := by
  -- what is left is the line end, where the sequence is the last
  have hend : ∀ a : List UInt8, Uncolored (a ++ [0x1B]) →
      ∃ fuel, strip fuel (a ++ eol build) = .ok (uncolored (a ++ eol build)) := by
    intro a ha
    have hfree : Uncolored (a ++ eol build) := uncolored_append_eol build ha.of_append
    exact ⟨0, by rw [strip_done hfree, uncolored, Escapes.remove_of_free hfree]⟩
  induction hn : u.length using Nat.strongRecOn generalizing u with
  | ind n ih =>
      by_cases hu : Uncolored u
      · have ha : Uncolored (u ++ [0x1B]) :=
          Escapes.free_concat_iff.mpr ⟨hu, fun h => absurd h.1 (by decide)⟩
        have hsplit : u ++ CLEAR ++ eol build = u ++ CSI ++ ([0x30] ++ 0x6D :: eol build) := by
          simp [clear_eq]
        rw [hsplit] at hlen ⊢
        exact strip_next ha (by decide) hlen (hend u ha)
      · obtain ⟨a, b, rfl, ha⟩ := Escapes.exists_first (by decide) hu
        by_cases hm : (0x6D : UInt8) ∈ b
        · obtain ⟨b, d, rfl, hb⟩ := List.eq_append_cons_of_mem hm
          have hsplit : a ++ 0x1B :: 0x5B :: (b ++ 0x6D :: d) ++ CLEAR ++ eol build =
              a ++ CSI ++ (b ++ 0x6D :: (d ++ CLEAR ++ eol build)) := by simp [CSI]
          have hrest : a ++ (d ++ CLEAR ++ eol build) = (a ++ d) ++ CLEAR ++ eol build := by simp
          rw [hsplit] at hlen ⊢
          refine strip_next ha hb hlen ?_
          rw [hrest]
          simp only [List.length_append, List.length_cons] at hn hlen
          refine ih (a ++ d).length ?_ (a ++ d) ?_ rfl
          · simp only [List.length_append]
            omega
          · simp only [List.length_append]
            omega
        · have hsplit : a ++ 0x1B :: 0x5B :: b ++ CLEAR ++ eol build =
              a ++ CSI ++ ((b ++ CSI ++ [0x30]) ++ 0x6D :: eol build) := by
            simp [clear_eq, CSI]
          rw [hsplit] at hlen ⊢
          exact strip_next ha (by simpa [CSI] using hm) hlen (hend a ha)

theorem Reads.slice {m : Memory} (h : Reads m l) : m.slice 0 l.length = l := by
  apply List.ext_getElem
  · simp [Memory.slice]
  · intro i hi hi'
    simpa [Memory.slice] using h i l[i] (List.getElem?_eq_getElem hi')

/-- The terminator ends what is read. -/
theorem read_eq {m : Memory} (hm : Reads m (l ++ [0])) (hl : 0 ∉ l)
    (hlen : l.length < kMaxBufferSize) : read m = .ok l := by
  have hsplit : kMaxBufferSize = (l ++ [0]).length + (kMaxBufferSize - l.length - 1) := by
    rw [List.length_append, List.length_singleton]
    omega
  obtain ⟨rest, hslice⟩ : ∃ rest, m.slice 0 kMaxBufferSize = l ++ 0 :: rest := by
    have hfirst := hm.slice
    unfold Memory.slice at hfirst ⊢
    rw [hsplit, List.range_add, List.map_append, hfirst]
    exact ⟨_, List.append_assoc l [0] _⟩
  have hall : ∀ c ∈ l, decide (c ≠ 0) = true := fun c hc =>
    decide_eq_true fun h => hl (h ▸ hc)
  unfold read
  dsimp only
  rw [hslice, if_pos (by simp), List.takeWhile_append_of_pos hall]
  simp

/-- A colour: an escape sequence that ends with the first `m`. -/
def IsColor (c : List UInt8) : Prop := ∃ b : List UInt8, 0x6D ∉ b ∧ c = CSI ++ (b ++ [0x6D])

theorem isColor_clear : IsColor CLEAR := ⟨bytes "0", by decide +kernel, rfl⟩

theorem isColor_black (build : Build) : IsColor (BLACK_BOLD_S build) := by
  unfold BLACK_BOLD_S
  cases build.apple
  · exact ⟨bytes "1;30", by decide +kernel, rfl⟩
  · exact ⟨bytes "0;37", by decide +kernel, rfl⟩

theorem isColor_color (build : Build) (level : Level) :
    color build level = [] ∨ IsColor (color build level) := by
  cases level with
  | NONE | INFO => exact .inl rfl
  | EMERG | ALERT | CRIT => exact .inr ⟨bytes "1;31", by decide +kernel, rfl⟩
  | ERR => exact .inr ⟨bytes "0;31", by decide +kernel, rfl⟩
  | WARNING => exact .inr ⟨bytes "0;33", by decide +kernel, rfl⟩
  | NOTICE => exact .inr ⟨bytes "1;37", by decide +kernel, rfl⟩
  | DEBUG =>
      unfold color
      dsimp only
      split
      · exact .inr (isColor_black build)
      · exact .inr ⟨bytes "0;90", by decide +kernel, rfl⟩

theorem uncolored_color (hc : IsColor c) (l : List UInt8) : uncolored (c ++ l) = uncolored l := by
  obtain ⟨b, hb, rfl⟩ := hc
  have hfirst := Escapes.remove_first (a := []) (Escapes.free_singleton 0x1B 0x5B 0x1B) hb l
  simpa [CSI] using hfirst

theorem uncolored_plain (h : Plain a) (l : List UInt8) :
    uncolored (a ++ l) = a ++ uncolored l :=
  Escapes.remove_append (free_of_plain h) (fun hlast => (h _ (List.mem_of_getLast? hlast)).2 rfl) l

/-- The colours of the timestamp and of the level are taken out. -/
theorem uncolored_line (build : Build) (level : Level) (ts : Nat) (tm : Tm) (l : List UInt8) :
    uncolored (stamp build level ts tm ++ color build level ++ l) =
      plainStamp level ts tm ++ uncolored l := by
  have hcolor : uncolored (color build level ++ l) = uncolored l := by
    obtain hnil | hcolor := isColor_color build level
    · rw [hnil, List.nil_append]
    · exact uncolored_color hcolor l
  have hbytes : Plain (bytes "] ") := by decide +kernel
  unfold stamp plainStamp
  split
  · rw [List.nil_append, List.nil_append, hcolor]
  · simp only [List.append_assoc, uncolored_plain (plain_date tm),
      uncolored_color (isColor_black build), uncolored_plain (plain_millis ts),
      uncolored_color isColor_clear, uncolored_plain hbytes, hcolor]

/-- The line end stays. -/
theorem eol_suffix (build : Build) (u : List UInt8) :
    eol build <:+ uncolored (u ++ CLEAR ++ eol build) := by
  have hclear : u ++ CLEAR ++ eol build = u ++ (0x1B :: 0x5B :: [0x30]) ++ 0x6D :: eol build := by
    simp [clear_eq, CSI]
  rw [hclear]
  refine Escapes.suffix_remove (by decide) (by decide) (by decide) (by decide) ?_
  unfold eol
  cases build.windows <;> decide

end

/-! ## The line -/

/-- The timestamp, the colour, a text, `CLEAR` and the line end. -/
def line (build : Build) (level : Level) (ts : Nat) (tm : Tm) (p : List UInt8) : List UInt8 :=
  stamp build level ts tm ++ color build level ++ p ++ CLEAR ++ eol build

/-- The size that is given is the real length of a text. -/
structure Message.Holds (msg : Message) (l : List UInt8) : Prop where
  size : msg.size = l.length
  nul : 0 ∉ l
  reads : Reads msg.line (l ++ [0])

/-- The copy without colours; the text begins behind the timestamp. -/
structure Copy (build : Build) (level : Level) (ts : Nat) (tm : Tm) (p copy : List UInt8) :
    Prop where
  removed : copy = uncolored (line build level ts tm p)
  free : ¬ CSI <:+: copy
  ended : eol build <:+ copy
  stamped : copy = plainStamp level ts tm ++ uncolored (p ++ CLEAR ++ eol build)

/-- Every backend is given a line with colours and a copy without, which are well formed. -/
def Formed (build : Build) (backends : Nat) (level : Level) (ts : Nat) (tm : Tm)
    (text : List UInt8) (out : Output) : Prop :=
  ∃ p, p <+: text ∧ (Fits build level ts tm text → p = text) ∧
    out.messages.map Message.colors = (List.replicate backends [true, false]).flatten ∧
    ∀ msg ∈ out.messages, msg.ts = ts ∧ msg.level = level ∧
      (msg.colors = true → msg.Holds (line build level ts tm p) ∧
        msg.offset = (stamp build level ts tm).length) ∧
      (msg.colors = false → ∃ copy, Copy build level ts tm p copy ∧ msg.Holds copy ∧
        msg.offset = (plainStamp level ts tm).length)

section

variable {build : Build} {background : Bool} {backends : Nat} {m : Memory} {level : Level}
variable {ts : Nat} {tm : Tm} {text : List UInt8}

theorem nul_color (build : Build) (level : Level) : 0 ∉ color build level := by
  obtain ⟨windows, apple⟩ := build
  cases level <;> cases windows <;> cases apple <;> decide +kernel

theorem nul_stamp (build : Build) (level : Level) (ts : Nat) (tm : Tm) :
    0 ∉ stamp build level ts tm := by
  have hdate : 0 ∉ date tm := fun h => (plain_date tm 0 h).1 rfl
  have hmillis : 0 ∉ millis ts := fun h => (plain_millis ts 0 h).1 rfl
  have hblack : 0 ∉ BLACK_BOLD_S build := by
    obtain ⟨windows, apple⟩ := build
    cases windows <;> cases apple <;> decide +kernel
  have hclear : 0 ∉ CLEAR := by decide +kernel
  have hbytes : 0 ∉ bytes "] " := by decide +kernel
  unfold stamp
  split <;> simp [hdate, hmillis, hblack, hclear, hbytes]

theorem nul_line {p : List UInt8} (hp : 0 ∉ p) : 0 ∉ line build level ts tm p := by
  have hclear : 0 ∉ CLEAR := by decide +kernel
  have heol : 0 ∉ eol build := by
    obtain ⟨windows, apple⟩ := build
    cases windows <;> cases apple <;> decide
  simp [line, nul_stamp, nul_color, hp, hclear, heol]

/-- The copy of a line is one without colours. -/
theorem copy_uncolored (build : Build) (level : Level) (ts : Nat) (tm : Tm) (p : List UInt8) :
    Copy build level ts tm p (uncolored (line build level ts tm p)) where
  removed := rfl
  free := Escapes.free_remove _
  ended := eol_suffix build (stamp build level ts tm ++ color build level ++ p)
  stamped := by
    rw [line, List.append_assoc _ p, List.append_assoc _ (p ++ CLEAR)]
    exact uncolored_line build level ts tm (p ++ CLEAR ++ eol build)

theorem holds_copy {ts offset : Nat} {copy : List UInt8} (hcopy : 0 ∉ copy) :
    Message.Holds ⟨ts, level, fun i => copy.getD i 0, offset, copy.length, false⟩ copy where
  size := rfl
  nul := hcopy
  reads i x hi := by
    rcases Nat.lt_or_ge i copy.length with hlt | hge
    · rw [List.getElem?_append_left hlt] at hi
      simp [List.getD_eq_getElem?_getD, hi]
    · rw [List.getElem?_append_right hge] at hi
      obtain ⟨-, rfl⟩ : i - copy.length = 0 ∧ 0 = x := by
        simpa [List.getElem?_singleton] using hi
      simp [List.getD_eq_getElem?_getD, hge]

/-- A text that fits is passed on as it is. -/
theorem formed_of_fits (htext : 0 ∉ text)
    (hm : Reads m (line build level ts tm text ++ [0])) : Formed build backends level ts tm text
      ⟨(List.replicate backends (passed ts level m (stamp build level ts tm).length
        (line build level ts tm text).length
        (uncolored (line build level ts tm text)))).flatten, []⟩ := by
  have hline : 0 ∉ line build level ts tm text := nul_line htext
  have hcopy : 0 ∉ uncolored (line build level ts tm text) := fun h =>
    hline (Escapes.mem_of_mem_remove h)
  refine ⟨text, List.prefix_refl _, fun _ => rfl, ?_, fun msg hmsg => ?_⟩
  · simp [passed]
  · obtain ⟨both, hboth, hmsg⟩ := List.mem_flatten.mp hmsg
    rw [List.eq_of_mem_replicate hboth, passed, List.mem_pair] at hmsg
    obtain rfl | rfl := hmsg
    · exact ⟨rfl, rfl, fun _ => ⟨⟨rfl, hline, hm⟩, rfl⟩, by simp⟩
    · refine ⟨rfl, rfl, by simp, fun _ => ⟨_, copy_uncolored .., holds_copy hcopy, ?_⟩⟩
      dsimp only
      rw [length_stamp]
      by_cases hnone : level = .NONE
      · simp [hnone, plainStamp]
      · rw [if_neg hnone, if_pos (by omega)]
        omega

/-- A text that does not fit is followed by a terminator that is counted. -/
theorem not_formed {out : Output} {msg : Message} {before after : List UInt8}
    (hmsg : msg ∈ out.messages) (hcolors : msg.colors = true)
    (hm : Reads msg.line (before ++ [0] ++ after)) (hsize : before.length < msg.size) :
    ¬ Formed build backends level ts tm text out := by
  rintro ⟨p, -, -, -, hall⟩
  obtain ⟨-, -, htrue, -⟩ := hall msg hmsg
  obtain ⟨hholds, -⟩ := htrue hcolors
  rw [hholds.size] at hsize
  have hzero : msg.line before.length = 0 := hm _ 0 (by simp)
  have hget := hholds.reads before.length _ (by
    rw [List.getElem?_append_left hsize]
    exact List.getElem?_eq_getElem hsize)
  rw [hzero] at hget
  exact hholds.nul (hget ▸ List.getElem_mem hsize)

/-- What the backends are passed once there is a line. -/
theorem print_some {fuel offset size : Nat} {m' : Memory} {x : Memory × Output}
    (hbackends : 0 < backends)
    (hcompose : compose build m level ts tm text = .ok (m', some (offset, size)))
    (hprint : print build fuel background backends m level ts tm text = .ok x) :
    ∃ txt, x.2 = ⟨(List.replicate backends (passed ts level m' offset size txt)).flatten, []⟩ := by
  unfold print at hprint
  rw [if_neg fun h => hbackends.ne' h.2, hcompose] at hprint
  simp only [bind, Except.bind, if_pos hbackends] at hprint
  cases hread : read m' with
  | error e => simp [hread] at hprint
  | ok txt =>
      simp only [hread] at hprint
      cases hstrip : strip fuel txt with
      | error e => simp [hstrip] at hprint
      | ok copy =>
          simp only [hstrip, Except.ok.injEq] at hprint
          exact ⟨copy, hprint ▸ rfl⟩

/-- Nothing is passed on of a text whose length is no `int`. -/
theorem print_none {fuel : Nat} {x : Memory × Output} (hbackends : 0 < backends)
    (hlong : 2 ^ 31 ≤ text.length)
    (hprint : print build fuel background backends m level ts tm text = .ok x) :
    x.2.messages = [] := by
  have hcompose : (compose build m level ts tm text).Sure fun y => y.2 = none := by
    have hstamp := length_stamp_le build level ts tm
    have hcolor := length_color build level
    have hmax : kMaxBufferSize = 16384 := rfl
    unfold compose
    refine (timestamp_sure build m level ts tm).bind ?_
    rintro ⟨m, offset⟩ ⟨hm, rfl⟩
    refine (store_sure hm (by omega)).bind fun m _ => ?_
    dsimp only
    rw [snprintf, if_pos hlong]
    exact rfl
  obtain ⟨⟨m', r⟩, hcompose, hr⟩ := Except.sure_iff.mp hcompose
  obtain rfl : r = none := hr
  unfold print at hprint
  rw [if_neg fun h => hbackends.ne' h.2, hcompose] at hprint
  obtain rfl := Except.ok.inj hprint
  rfl

theorem fits_of_formed {fuel : Nat} {x : Memory × Output} (hbackends : 0 < backends)
    (hprint : print build fuel background backends m level ts tm text = .ok x)
    (hformed : Formed build backends level ts tm text x.2) : Fits build level ts tm text := by
  by_contra hnot
  rcases Nat.lt_or_ge text.length (2 ^ 31) with hlong | hlong
  · obtain ⟨⟨m', r⟩, hcompose, hm, hsize⟩ :=
      Except.sure_iff.mp (compose_sure build m level ts tm hlong)
    obtain rfl : r = _ := hsize
    obtain ⟨txt, hx⟩ := print_some hbackends hcompose hprint
    have hterminated : Reads m' (stamp build level ts tm ++ color build level ++
        text.take (room (stamp build level ts tm).length - 1) ++ [0] ++
        (CLEAR ++ eol build ++ [0])) := by
      simpa [content, hnot] using hm
    rw [hx] at hformed
    refine not_formed (List.mem_flatten.mpr ⟨_, List.mem_replicate.mpr ⟨hbackends.ne', rfl⟩,
      List.mem_cons_self⟩) rfl hterminated ?_ hformed
    simp only [content, if_neg hnot, List.length_append, List.length_singleton]
    omega
  · obtain ⟨p, -, -, hcolors, -⟩ := hformed
    rw [print_none hbackends hlong hprint] at hcolors
    obtain ⟨n, rfl⟩ := Nat.exists_eq_succ_of_ne_zero hbackends.ne'
    simp [List.replicate_succ] at hcolors

/-- Whatever is logged, the line is well formed just when the text fits. -/
theorem print_iff (hbackends : 0 < backends) (htext : 0 ∉ text) :
    (∃ fuel x, print build fuel background backends m level ts tm text = .ok x ∧
      Formed build backends level ts tm text x.2) ↔ Fits build level ts tm text := by
  have hback : ¬ (background ∧ backends = 0) := fun h => hbackends.ne' h.2
  constructor
  · rintro ⟨fuel, x, hprint, hformed⟩
    exact fits_of_formed hbackends hprint hformed
  · intro hfits
    have hstamp := length_stamp_le build level ts tm
    have hcolor := length_color build level
    have hend := length_end build
    have hlength : (line build level ts tm text).length < kMaxBufferSize := by
      unfold Fits at hfits
      simp only [line, List.length_append, List.length_singleton] at hend ⊢
      omega
    have hmax : kMaxBufferSize = 16384 := rfl
    have hlong : text.length < 2 ^ 31 := by
      unfold Fits at hfits
      omega
    obtain ⟨y, hcompose, hm, hsize⟩ :=
      Except.sure_iff.mp (compose_sure build m level ts tm hlong)
    obtain ⟨m', r⟩ := y
    have hcontent : content build level ts tm text ++ (CLEAR ++ eol build) =
        line build level ts tm text := by
      rw [content, if_pos hfits]
      simp [line]
    rw [hcontent] at hsize
    rw [← List.append_assoc, hcontent] at hm
    obtain rfl : r = _ := hsize
    obtain ⟨fuel, hstrip⟩ : ∃ fuel, strip fuel (line build level ts tm text) =
        .ok (uncolored (line build level ts tm text)) := strip_line build
      (stamp build level ts tm ++ color build level ++ text) (hlength.trans (by decide))
    have hread : read m' = .ok (line build level ts tm text) :=
      read_eq hm (nul_line htext) hlength
    refine ⟨fuel, (m', _), ?_, formed_of_fits htext hm⟩
    unfold print
    rw [if_neg hback, hcompose]
    simp only [bind, Except.bind, hread, hstrip, if_pos hbackends]

end

/-- The build for Linux. -/
def linux : Build := ⟨false, false⟩

/-- The first second of 2021, which has 37 bytes in the buffer. -/
def newYear : Tm := ⟨2021, 0, .succ 0, 0, 0, 0, by decide⟩

/-- An escape sequence that is not closed, from a pool. -/
theorem print_hostile :
    (∃ fuel x, print linux fuel false 1 (fun _ => 0) .ERR 0 newYear (bytes "\x1b[31 oops") = .ok x ∧
      Formed linux 1 .ERR 0 newYear (bytes "\x1b[31 oops") x.2) ↔
        Fits linux .ERR 0 newYear (bytes "\x1b[31 oops") :=
  print_iff (by decide) (by decide +kernel)

/-- A text of 16352 letters without a timestamp: the last of its 16352 bytes in the buffer is the
terminator. -/
theorem print_long :
    ¬ ∃ fuel x,
      print linux fuel false 1 (fun _ => 0) .NONE 0 newYear (List.replicate 16352 0x61) = .ok x ∧
        Formed linux 1 .NONE 0 newYear (List.replicate 16352 0x61) x.2 := by
  intro ⟨fuel, x, hprint, hformed⟩
  have hfits := fits_of_formed (by decide) hprint hformed
  have hmax : kMaxBufferSize = 16384 := rfl
  unfold Fits at hfits
  rw [List.length_replicate] at hfits
  omega

end Log

end XLArig
