import XLArig.CString
import XLArig.Lines

/-!
# XLArig.LineReader

`LineReader`: lines from the chunks of bytes that a socket delivers.

A line that begins and ends in one chunk is handed to the listener where it is; the
end of a chunk that is no whole line goes into a buffer, and the next line is put
together there.  The listener may call `reset` on the reader while a chunk is read,
so the loop is modelled for any listener, and `collect` is the one that only keeps
the lines.
-/

namespace XLArig

open Lines (scan IsSplit)

/-- `XMRIG_NET_BUFFER_CHUNK_SIZE`. -/
def chunkSize : Nat := 64 * 1024

/-- `LineReader`; `buf` is null, or the bytes of `m_buf` before `m_pos`. -/
structure LineReader where
  buf : Option (List UInt8)
  deriving DecidableEq, Repr

namespace LineReader

/-- A reader without a buffer. -/
def init : LineReader := ⟨none⟩

/-- The bytes in the buffer. -/
def held (r : LineReader) : List UInt8 := r.buf.getD []

/-- `m_pos`. -/
def pos (r : LineReader) : Nat := r.held.length

@[simp] theorem held_none : (⟨none⟩ : LineReader).held = [] := rfl

@[simp] theorem held_some (data : List UInt8) : (⟨some data⟩ : LineReader).held = data := rfl

def reset (_ : LineReader) : LineReader := ⟨none⟩

/-- What does not fit is not added. -/
def add (r : LineReader) (data : List UInt8) : LineReader :=
  if data.length + r.pos > chunkSize then r else ⟨some (r.held ++ data)⟩

section

variable {σ : Type} (onLine : σ → List UInt8 → σ × Bool)

/-- One turn of the loop of `getline`, for the line before a newline, which was
replaced by a zero.  `onLine` says whether it called `reset`. -/
def deliver (r : LineReader) (s : σ) (line : List UInt8) : LineReader × σ :=
  if r.pos ≠ 0 then
    let r := r.add (line ++ [0])
    let (s, again) := onLine s (r.held.take (r.pos - 1))
    let r := if again then r.reset else r
    (⟨r.buf.map fun _ => []⟩, s)
  else if line.length + 1 > 1 then
    let (s, again) := onLine s line
    (if again then r.reset else r, s)
  else (r, s)

/-- `getline` on the bytes that are left; `start` are those before them that belong to
the same line. -/
def getline (r : LineReader) (s : σ) (start : List UInt8) : (data : List UInt8) → LineReader × σ
  | [] => (if start = [] then r.reset else r.add start, s)
  | c :: data =>
      if c = 0x0A then
        let (r, s) := r.deliver onLine s start
        getline r s [] data
      else getline r s (start ++ [c]) data

/-- `LineReader::parse`. -/
def parse (r : LineReader) (s : σ) (data : List UInt8) : LineReader × σ :=
  if data = [] then (r, s) else r.getline onLine s [] data

/-- The chunks of a stream, one after the other. -/
def parseAll (r : LineReader) (s : σ) : (chunks : List (List UInt8)) → LineReader × σ
  | [] => (r, s)
  | data :: chunks =>
      let (r, s) := r.parse onLine s data
      parseAll r s chunks

end

/-- A listener that keeps the lines. -/
def collect (log : List (List UInt8)) (line : List UInt8) : List (List UInt8) × Bool :=
  (log ++ [line], false)

/-! ## Lines do not depend on the chunks -/

/-- The reader has the unterminated `tail` of the stream in its buffer, if that fits. -/
structure Tracks (r : LineReader) (tail : List UInt8) : Prop where
  le : r.pos ≤ chunkSize
  held : tail.length ≤ chunkSize → r.held = tail

theorem tracks_init : init.Tracks [] := ⟨by decide, fun _ => rfl⟩

variable {r : LineReader} {tail start data line : List UInt8} {log : List (List UInt8)}

theorem add_fits (h : data.length + r.pos ≤ chunkSize) : r.add data = ⟨some (r.held ++ data)⟩ :=
  if_neg (Nat.not_lt.mpr h)

theorem Tracks.add (h : r.Tracks tail) : (r.add data).Tracks (tail ++ data) := by
  by_cases hfits : data.length + r.pos ≤ chunkSize
  · rw [add_fits hfits]
    constructor
    · simp only [pos, held_some, List.length_append] at hfits ⊢
      omega
    · intro hle
      have htail : r.held = tail := h.held (by simp only [List.length_append] at hle; omega)
      rw [held_some, htail]
  · rw [LineReader.add, if_pos (by omega)]
    refine ⟨h.le, fun hle => ?_⟩
    have htail : r.held = tail := h.held (by simp only [List.length_append] at hle; omega)
    rw [pos, htail] at hfits
    simp only [List.length_append] at hle
    omega

section

variable {σ : Type} {onLine : σ → List UInt8 → σ × Bool} {s : σ}

theorem getline_newline : r.getline onLine s start (0x0A :: data) =
    (r.deliver onLine s start).1.getline onLine (r.deliver onLine s start).2 [] data := rfl

theorem getline_other {c : UInt8} (hc : c ≠ 0x0A) : r.getline onLine s start (c :: data) =
    r.getline onLine s (start ++ [c]) data := by
  rw [getline, if_neg hc]

end

/-- A line that fits is handed on, unless it is empty. -/
theorem Tracks.deliver (h : r.Tracks tail) (log : List (List UInt8))
    (hfits : (tail ++ line).length + 1 ≤ chunkSize) :
    (r.deliver collect log line).2 = log ++ [tail ++ line].filter (· ≠ []) ∧
      (r.deliver collect log line).1.Tracks [] := by
  simp only [List.length_append] at hfits
  have htail : r.held = tail := h.held (by omega)
  unfold LineReader.deliver
  by_cases hpos : r.pos ≠ 0
  · -- the line is put together in the buffer
    have hadd : r.add (line ++ [0]) = ⟨some (r.held ++ (line ++ [0]))⟩ :=
      add_fits (by simp only [pos, htail, List.length_append, List.length_singleton]; omega)
    have hne : tail ++ line ≠ [] := by
      rw [pos, htail] at hpos
      simp_all
    have hlen : (tail ++ (line ++ [0])).length - 1 = (tail ++ line).length := by simp
    have htake : (tail ++ (line ++ [0])).take ((tail ++ (line ++ [0])).length - 1) = tail ++ line := by
      rw [hlen, ← List.append_assoc]
      exact List.take_left
    rw [if_pos hpos, hadd]
    simp only [held_some, pos, htail, collect, htake, Bool.false_eq_true, if_false, Option.map_some]
    exact ⟨by simp [hne], by simp [pos], fun _ => rfl⟩
  · -- the buffer is empty
    rw [if_neg hpos]
    have hnil : tail = [] := by
      rw [pos, htail] at hpos
      simpa using hpos
    subst hnil
    have htracks : r.Tracks [] := h
    by_cases hline : line = []
    · subst hline
      simpa using htracks
    · have hlen : line.length + 1 > 1 := by
        have := List.length_pos_iff.mpr hline
        omega
      rw [if_pos hlen]
      simpa [collect, hline] using htracks

/-- One chunk: the lines that it completes are handed on. -/
theorem Tracks.getline (h : r.Tracks tail) (log : List (List UInt8))
    (hfits : ∀ l ∈ (scan 0x0A (tail ++ start) data).1, l.length + 1 ≤ chunkSize)
    (hend : start ++ data = [] → tail = []) :
    (r.getline collect log start data).2 =
        log ++ (scan 0x0A (tail ++ start) data).1.filter (· ≠ []) ∧
      (r.getline collect log start data).1.Tracks (scan 0x0A (tail ++ start) data).2 := by
  induction data generalizing r tail start log with
  | nil =>
      refine ⟨by simp [LineReader.getline, scan], ?_⟩
      simp only [LineReader.getline, scan]
      split
      · next hstart =>
        subst hstart
        obtain rfl := hend rfl
        exact ⟨by simp [reset, pos], fun _ => rfl⟩
      · exact h.add
  | cons c data ih =>
      by_cases hc : c = 0x0A
      · subst hc
        rw [getline_newline]
        simp only [scan, if_true, List.forall_mem_cons] at hfits ⊢
        obtain ⟨hlog, htracks⟩ := h.deliver log hfits.1
        obtain ⟨hlog', htracks'⟩ := ih htracks (r.deliver collect log start).2 hfits.2
          fun _ => rfl
        refine ⟨?_, htracks'⟩
        rw [hlog', hlog, List.append_nil, List.append_assoc, ← List.filter_append]
        rfl
      · rw [getline_other hc]
        simp only [scan, if_neg hc, List.append_assoc] at hfits ⊢
        exact ih h log hfits (by simp)

theorem Tracks.parse (h : r.Tracks tail) (log : List (List UInt8))
    (hfits : ∀ l ∈ (scan 0x0A tail data).1, l.length + 1 ≤ chunkSize) :
    (r.parse collect log data).2 = log ++ (scan 0x0A tail data).1.filter (· ≠ []) ∧
      (r.parse collect log data).1.Tracks (scan 0x0A tail data).2 := by
  unfold LineReader.parse
  by_cases hdata : data = []
  · subst hdata
    simpa [scan] using h
  · rw [if_neg hdata]
    have hget : (r.getline collect log [] data).2 = _ ∧ _ :=
      h.getline log (by simpa using hfits) (by simp [hdata])
    simpa using hget

theorem Tracks.parseAll {chunks : List (List UInt8)} (h : r.Tracks tail)
    (log : List (List UInt8))
    (hfits : ∀ l ∈ (scan 0x0A tail chunks.flatten).1, l.length + 1 ≤ chunkSize) :
    (r.parseAll collect log chunks).2 =
        log ++ (scan 0x0A tail chunks.flatten).1.filter (· ≠ []) ∧
      (r.parseAll collect log chunks).1.Tracks (scan 0x0A tail chunks.flatten).2 := by
  induction chunks generalizing r tail log with
  | nil => simpa [LineReader.parseAll, scan] using h
  | cons data chunks ih =>
      simp only [List.flatten_cons, Lines.scan_append, List.forall_mem_append] at hfits ⊢
      obtain ⟨hlog, htracks⟩ := h.parse log hfits.1
      obtain ⟨hlog', htracks'⟩ := ih htracks (r.parse collect log data).2 hfits.2
      refine ⟨?_, htracks'⟩
      show ((r.parse collect log data).1.parseAll collect (r.parse collect log data).2 chunks).2 = _
      rw [hlog', hlog, List.filter_append, List.append_assoc]

/-- **Line framing does not depend on how the stream is cut.**  After each prefix of the
chunks the listener has got the lines completed so far that are not empty, and the
buffer holds what is left, exactly if it fits. -/
theorem parseAll_lines {chunks : List (List UInt8)}
    (hfits : ∀ lines tail, IsSplit 0x0A chunks.flatten lines tail →
      ∀ l ∈ lines, l.length + 1 ≤ chunkSize)
    {before : List (List UInt8)} (hpre : before <+: chunks) {lines : List (List UInt8)}
    (hsplit : IsSplit 0x0A before.flatten lines tail) :
    (init.parseAll collect [] before).2 = lines.filter (· ≠ []) ∧
      ((init.parseAll collect [] before).1.held = tail ↔ tail.length ≤ chunkSize) := by
  have hscan : scan 0x0A [] before.flatten = (lines, tail) := hsplit.scan_eq
  have hle : ∀ l ∈ (lines, tail).1, l.length + 1 ≤ chunkSize := by
    obtain ⟨rest, rfl⟩ := hpre
    have hall := Lines.isSplit_scan (s := (before ++ rest).flatten) (List.not_mem_nil (a := (0x0A : UInt8)))
    intro l hl
    refine hfits _ _ hall l ?_
    rw [List.flatten_append, Lines.scan_append, hscan]
    exact List.mem_append_left _ hl
  rw [← hscan] at hle
  obtain ⟨hlog, htracks⟩ := tracks_init.parseAll [] hle
  rw [hscan] at hlog htracks
  refine ⟨hlog, ?_, htracks.held⟩
  rintro rfl
  exact htracks.le

/-! ## Any listener -/

section

variable {σ : Type} {onLine : σ → List UInt8 → σ × Bool} {s : σ} {r' : LineReader}

/-- Lines are handed to the listener one after the other. -/
def handAll (onLine : σ → List UInt8 → σ × Bool) (s : σ) (lines : List (List UInt8)) : σ :=
  lines.foldl (fun s line => (onLine s line).1) s

theorem held_add (h : r.held = r'.held) (data : List UInt8) :
    (r.add data).held = (r'.add data).held := by
  unfold add
  rw [pos, pos, h]
  split
  · exact h
  · rfl

/-- The listener gets the line that `collect` would keep, and a reset makes no
difference to what the buffer holds after it. -/
theorem deliver_eq (onLine : σ → List UInt8 → σ × Bool) (s : σ) (h : r.held = r'.held)
    (log : List (List UInt8)) (line : List UInt8) :
    ∃ lines, (r'.deliver collect log line).2 = log ++ lines ∧
      (r.deliver onLine s line).2 = handAll onLine s lines ∧
      (r.deliver onLine s line).1.held = (r'.deliver collect log line).1.held := by
  have hempty : ∀ r : LineReader, (⟨r.buf.map fun _ => []⟩ : LineReader).held = [] := by
    rintro ⟨_ | _⟩ <;> rfl
  have hpos : r.pos = r'.pos := congrArg List.length h
  have hheld := held_add h (line ++ [0])
  unfold deliver
  rw [hpos]
  split
  · -- the buffer is empty after the line, whether it was reset or not
    refine ⟨[(r'.add (line ++ [0])).held.take ((r'.add (line ++ [0])).pos - 1)], rfl, ?_, ?_⟩
    · simp [handAll, pos, hheld]
    · simp [hempty]
  · next hzero =>
    -- it was empty before
    have hnil : r.held = [] := by
      rw [← hpos, pos] at hzero
      simpa using hzero
    split
    · refine ⟨[line], rfl, rfl, ?_⟩
      show (if (onLine s line).2 then r.reset else r).held = r'.held
      rw [← h, hnil]
      split
      · rfl
      · exact hnil
    · exact ⟨[], by simp, rfl, h⟩

theorem getline_eq (onLine : σ → List UInt8 → σ × Bool) (s : σ) (h : r.held = r'.held)
    (log : List (List UInt8)) (start data : List UInt8) :
    ∃ lines, (r'.getline collect log start data).2 = log ++ lines ∧
      (r.getline onLine s start data).2 = handAll onLine s lines ∧
      (r.getline onLine s start data).1.held = (r'.getline collect log start data).1.held := by
  induction data generalizing r r' s log start with
  | nil =>
      refine ⟨[], by simp [getline], rfl, ?_⟩
      simp only [getline]
      split
      · rfl
      · exact held_add h start
  | cons c data ih =>
      by_cases hc : c = 0x0A
      · subst hc
        obtain ⟨lines, hlog, hall, hheld⟩ := deliver_eq onLine s h log start
        obtain ⟨lines', hlog', hall', hheld'⟩ := ih (r.deliver onLine s start).2 hheld
          (r'.deliver collect log start).2 []
        refine ⟨lines ++ lines', ?_, ?_, hheld'⟩
        · rw [getline_newline, hlog', hlog, List.append_assoc]
        · rw [getline_newline, hall', hall, handAll, handAll, handAll, List.foldl_append]
      · rw [getline_other hc, getline_other hc]
        exact ih s h log _

/-- The lines that a chunk completes. -/
def lines (r : LineReader) (data : List UInt8) : List (List UInt8) := (r.parse collect [] data).2

/-- **The listener gets all lines of a chunk**, whether it resets the reader or not, and
the buffer holds the same at the end. -/
theorem parse_eq (r : LineReader) (onLine : σ → List UInt8 → σ × Bool) (s : σ)
    (data : List UInt8) : (r.parse onLine s data).2 = handAll onLine s (r.lines data) ∧
      (r.parse onLine s data).1.held = (r.parse collect [] data).1.held := by
  unfold lines parse
  split
  · exact ⟨rfl, rfl⟩
  · obtain ⟨lines, hlog, hall, hheld⟩ := getline_eq onLine s (rfl : r.held = r.held) [] [] data
    rw [List.nil_append] at hlog
    rw [hlog]
    exact ⟨hall, hheld⟩

/-- Nothing is held just after the end of a line. -/
theorem held_getline_nil (hne : start ++ data ≠ []) (hlen : (start ++ data).length ≤ chunkSize)
    (hstart : 0x0A ∉ start) : (r.getline onLine s start data).1.held = [] ↔
      (start ++ data).getLast? = some 0x0A := by
  induction data generalizing r s start with
  | nil =>
      rw [List.append_nil] at hne hlen ⊢
      have hlast : start.getLast? ≠ some 0x0A :=
        fun h => hstart (List.mem_of_getLast? h)
      simp only [getline, hlast, iff_false, if_neg hne]
      unfold add
      split
      · next hlong =>
        rw [pos] at hlong
        intro hnil
        rw [hnil, List.length_nil] at hlong
        omega
      · simp [hne]
  | cons c data ih =>
      by_cases hc : c = 0x0A
      · subst hc
        rw [getline_newline]
        cases data with
        | nil => simp [getline, reset]
        | cons c data =>
            simp only [List.length_append, List.length_cons] at hlen
            have hrest : ([] ++ c :: data).length ≤ chunkSize := by
              simp only [List.nil_append, List.length_cons]
              omega
            rw [ih (by simp) hrest List.not_mem_nil]
            simp
      · rw [getline_other hc, ih (by simp) (by simpa using hlen) (by simp [hstart, Ne.symm hc])]
        simp

end

end LineReader

end XLArig

namespace XLArig.LineReader

/-! ## Two streams -/

open Lines (scan IsSplit)

/-- A line over two chunks, an empty one and the beginning of another. -/
theorem parseAll_lines_two :
    (init.parseAll collect [] [bytes "ab\nc", bytes "d\n\ne"]).2 = [bytes "ab", bytes "cd"] ∧
      (init.parseAll collect [] [bytes "ab\nc", bytes "d\n\ne"]).1.held = bytes "e" := by
  have hsplit : IsSplit 0x0A [bytes "ab\nc", bytes "d\n\ne"].flatten
      [bytes "ab", bytes "cd", []] (bytes "e") := ⟨by decide, by decide, by decide⟩
  have hfits : ∀ lines tail, IsSplit 0x0A [bytes "ab\nc", bytes "d\n\ne"].flatten lines tail →
      ∀ l ∈ lines, l.length + 1 ≤ chunkSize := by
    intro lines tail h
    obtain ⟨rfl, -⟩ := Prod.mk.inj (hsplit.scan_eq.symm.trans h.scan_eq)
    decide
  obtain ⟨hlines, hheld⟩ := parseAll_lines hfits (List.prefix_refl _) hsplit
  exact ⟨hlines, hheld.mpr (by decide)⟩

/-- **The buffer does not hold a tail that is too long for it**, though no line of the
stream is. -/
theorem loses_tail :
    ∃ chunks : List (List UInt8), (∀ data ∈ chunks, data ≠ [] ∧ data.length ≤ chunkSize) ∧
      IsSplit 0x0A chunks.flatten [] chunks.flatten ∧
      (init.parseAll collect [] chunks).1.held ≠ chunks.flatten := by
  have hne : ∀ n, (0x0A : UInt8) ∉ List.replicate n 0x61 := by
    intro n h
    exact absurd (List.eq_of_mem_replicate h) (by decide)
  have hflat : [List.replicate chunkSize (0x61 : UInt8), [0x61]].flatten =
      List.replicate (chunkSize + 1) 0x61 := by
    simp [List.replicate_succ']
  have hscan : scan (0x0A : UInt8) [] (List.replicate (chunkSize + 1) 0x61) =
      ([], List.replicate (chunkSize + 1) 0x61) := by
    rw [Lines.scan_of_notMem (hne _), List.nil_append]
  refine ⟨[List.replicate chunkSize 0x61, [0x61]], ?_, ?_, ?_⟩
  · simp only [List.forall_mem_cons, List.length_replicate, List.length_singleton]
    exact ⟨⟨List.replicate_succ_ne_nil, Nat.le_refl _⟩, ⟨by decide, by decide⟩, nofun⟩
  · rw [hflat]
    exact ⟨List.nil_append _, fun _ h => absurd h List.not_mem_nil, hne _⟩
  · have hfits : ∀ l ∈ (scan 0x0A [] [List.replicate chunkSize (0x61 : UInt8), [0x61]].flatten).1,
        l.length + 1 ≤ chunkSize := by
      rw [hflat, hscan]
      exact fun _ h => absurd h List.not_mem_nil
    obtain ⟨-, htracks⟩ := tracks_init.parseAll [] hfits
    intro heq
    have hle := htracks.le
    rw [pos, heq, hflat, List.length_replicate] at hle
    exact absurd hle (Nat.not_succ_le_self _)

end XLArig.LineReader
