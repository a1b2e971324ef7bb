import XLArig.LineReader

/-!
# XLArig.LineReader.Whole

What the listener gets of a line that does not fit into the buffer.

`add` drops what does not fit, but `getline` hands over what is in the buffer all the same.  Every
line that reaches the listener is whole and has its terminator if and only if no line of the stream
is longer than the buffer (`whole_iff`): of a longer one it gets the beginning, without the last
byte and without a zero behind it.
-/

namespace XLArig

open Lines (scan IsSplit)

namespace LineReader

section

variable {σ : Type} (onLine : σ → List UInt8 → σ × Bool)

/-- What is handed over for a line whose last bytes are `line`: the bytes before `data[length]` and
that byte. -/
def delivered (r : LineReader) (line : List UInt8) : Option (List UInt8 × UInt8) :=
  if r.pos ≠ 0 then
    let r := r.add (line ++ [0])
    some (r.held.take (r.pos - 1), r.held.getD (r.pos - 1) 0)
  else if line.length + 1 > 1 then some (line, 0)
  else none

/-- What `getline` hands over, for each newline. -/
def handed (r : LineReader) (s : σ) (start : List UInt8) :
    List UInt8 → List (Option (List UInt8 × UInt8))
  | [] => []
  | c :: data =>
      if c = 0x0A then
        r.delivered start ::
          handed (r.deliver onLine s start).1 (r.deliver onLine s start).2 [] data
      else handed r s (start ++ [c]) data

/-- What is handed over of a stream. -/
def handedAll (r : LineReader) (s : σ) : List (List UInt8) → List (Option (List UInt8 × UInt8))
  | [] => []
  | data :: chunks =>
      r.handed onLine s [] data ++
        handedAll (r.parse onLine s data).1 (r.parse onLine s data).2 chunks

/-! ## The listener gets what is handed over -/

variable {onLine} {r : LineReader} {s : σ} {tail start data line : List UInt8}

theorem deliver_snd : (r.deliver onLine s line).2 =
    handAll onLine s ((r.delivered line).map Prod.fst).toList := by
  unfold deliver delivered
  split
  · rfl
  split
  · rfl
  · rfl

theorem handAll_append (lines lines' : List (List UInt8)) :
    handAll onLine s (lines ++ lines') = handAll onLine (handAll onLine s lines) lines' :=
  List.foldl_append

theorem getline_snd : (r.getline onLine s start data).2 =
    handAll onLine s ((r.handed onLine s start data).filterMap fun x => x.map Prod.fst) := by
  induction data generalizing r s start with
  | nil => rfl
  | cons c data ih =>
      by_cases hc : c = 0x0A
      · subst hc
        have hsnd : (r.deliver onLine s start).2 =
            handAll onLine s ((r.delivered start).map Prod.fst).toList := deliver_snd
        rw [getline_newline, ih, handed, if_pos rfl, List.filterMap_cons]
        cases hdelivered : r.delivered start with
        | none =>
            rw [hdelivered] at hsnd
            rw [hsnd]
            rfl
        | some p =>
            rw [hdelivered] at hsnd
            rw [hsnd]
            rfl
      · rw [getline_other hc, ih, handed, if_neg hc]

theorem parseAll_snd (chunks : List (List UInt8)) : (r.parseAll onLine s chunks).2 =
    handAll onLine s ((r.handedAll onLine s chunks).filterMap fun x => x.map Prod.fst) := by
  induction chunks generalizing r s with
  | nil => rfl
  | cons data chunks ih =>
      have hparse : (r.parse onLine s data).2 =
          handAll onLine s ((r.handed onLine s [] data).filterMap fun x => x.map Prod.fst) := by
        unfold parse
        split
        case isTrue h =>
          subst h
          rfl
        case isFalse => exact getline_snd
      simp only [parseAll, handedAll, ih, List.filterMap_append, handAll_append, hparse]

/-! ## The buffer -/

/-- The buffer holds something of every line that began, and all of it if it fits. -/
structure Holds (r : LineReader) (tail : List UInt8) : Prop where
  ne : tail ≠ [] → r.held ≠ []
  le : r.held.length ≤ tail.length
  held : tail.length ≤ chunkSize → r.held = tail

theorem holds_nil (h : r.held = []) : r.Holds [] :=
  ⟨fun hne => absurd rfl hne, by rw [h], fun _ => h⟩

theorem add_long (h : chunkSize < data.length + r.pos) : r.add data = r := if_pos h

theorem Holds.add (h : r.Holds tail) (hne : start ≠ []) (hlen : start.length ≤ chunkSize) :
    (r.add start).Holds (tail ++ start) := by
  by_cases hfits : start.length + r.pos ≤ chunkSize
  case pos =>
    rw [add_fits hfits]
    refine ⟨fun _ => ?_, ?_, fun hle => ?_⟩
    · simp [hne]
    · have hle := h.le
      simp only [held_some, List.length_append]
      omega
    · rw [List.length_append] at hle
      rw [held_some, h.held (by omega)]
  case neg =>
    -- something was there already, and it stays
    have hpos : r.held ≠ [] := by
      intro hnil
      rw [pos, hnil, List.length_nil] at hfits
      omega
    rw [add_long (by omega)]
    refine ⟨fun _ => hpos, ?_, fun hle => ?_⟩
    · have hle := h.le
      rw [List.length_append]
      omega
    · rw [List.length_append] at hle
      have hheld := h.held (by omega)
      rw [pos, hheld] at hfits
      omega

/-- A line is handed over whole if and only if it fits with its terminator. -/
theorem Holds.delivered_iff (h : r.Holds tail) (hlen : line.length + 1 ≤ chunkSize) :
    (∀ p ∈ r.delivered line, p = (tail ++ line, 0)) ↔ (tail ++ line).length + 1 ≤ chunkSize := by
  unfold delivered
  by_cases hnil : tail = []
  case pos =>
    -- the line is in one chunk
    subst hnil
    have hheld : r.held = [] := h.held (Nat.zero_le _)
    rw [if_neg (not_not.mpr (by rw [pos, hheld, List.length_nil])), List.nil_append]
    refine iff_of_true ?_ hlen
    split
    · rintro p ⟨⟩
      rfl
    · rintro p ⟨⟩
  case neg =>
    have hne := h.ne hnil
    have hpos : 0 < r.held.length := List.length_pos_iff.mpr hne
    have hle := h.le
    rw [if_pos (show r.pos ≠ 0 from hpos.ne'), List.length_append]
    simp only [Option.mem_def, Option.some.injEq, forall_eq']
    by_cases hfits : (line ++ [0]).length + r.pos ≤ chunkSize
    case pos =>
      have hlast : (⟨some (r.held ++ (line ++ [0]))⟩ : LineReader).pos - 1 =
          (r.held ++ line).length := by
        simp [pos, ← List.append_assoc]
      rw [add_fits hfits, hlast, held_some, ← List.append_assoc, List.take_left,
        List.getD_append_right _ _ _ _ (Nat.le_refl _), Nat.sub_self, Prod.mk.injEq,
        List.append_left_inj]
      simp only [pos, List.length_append, List.length_singleton] at hfits
      constructor
      · rintro ⟨hheld, -⟩
        rw [← hheld]
        omega
      · exact fun hshort => ⟨h.held (by omega), rfl⟩
    case neg =>
      simp only [pos, List.length_append, List.length_singleton] at hfits
      rw [add_long (by simp only [pos, List.length_append, List.length_singleton]; omega)]
      refine iff_of_false (fun heq => ?_) fun hshort => ?_
      · have hlength := congrArg List.length (Prod.mk.inj heq).1
        simp only [pos, List.length_take, List.length_append] at hlength
        omega
      · rw [h.held (by omega)] at hfits
        omega

/-- Nothing of a line is left. -/
theorem held_deliver : (r.deliver onLine s line).1.held = [] := by
  unfold deliver
  split
  case isTrue =>
    dsimp only
    cases ((if (onLine s ((r.add (line ++ [0])).held.take ((r.add (line ++ [0])).pos - 1))).2
      then (r.add (line ++ [0])).reset else r.add (line ++ [0])).buf) <;> rfl
  case isFalse hpos =>
    have hnil : r.held = [] := by
      rw [pos] at hpos
      simpa using hpos
    split
    · dsimp only
      split
      · rfl
      · exact hnil
    · exact hnil

/-! ## Streams -/

/-- A line, and what is handed over for it. -/
def Whole (line : List UInt8) (given : Option (List UInt8 × UInt8)) : Prop :=
  ∀ p ∈ given, p = (line, 0)

theorem Holds.handed (h : r.Holds tail) (s : σ) (hlen : (start ++ data).length ≤ chunkSize)
    (hend : start ++ data = [] → tail = []) :
    (List.Forall₂ Whole (scan 0x0A (tail ++ start) data).1 (r.handed onLine s start data) ↔
        ∀ l ∈ (scan 0x0A (tail ++ start) data).1, l.length + 1 ≤ chunkSize) ∧
      (r.getline onLine s start data).1.Holds (scan 0x0A (tail ++ start) data).2 := by
  induction data generalizing r tail start s with
  | nil =>
      refine ⟨iff_of_true .nil nofun, ?_⟩
      simp only [getline, scan]
      split
      case isTrue hstart =>
        subst hstart
        rw [hend rfl]
        exact holds_nil rfl
      case isFalse hstart => exact h.add hstart (by simpa using hlen)
  | cons c data ih =>
      by_cases hc : c = 0x0A
      · subst hc
        simp only [List.length_append, List.length_cons] at hlen
        have hdata : ([] ++ data).length ≤ chunkSize := by
          rw [List.nil_append]
          omega
        obtain ⟨hrest, hholds⟩ :=
          ih (holds_nil held_deliver) (r.deliver onLine s start).2 hdata fun _ => rfl
        rw [getline_newline]
        simp only [scan, if_true, LineReader.handed, List.forall₂_cons, List.forall_mem_cons]
        exact ⟨and_congr (h.delivered_iff (by omega)) hrest, hholds⟩
      · rw [getline_other hc]
        simp only [scan, if_neg hc, LineReader.handed, List.append_assoc]
        exact ih h s (by simpa using hlen) (by simp)

theorem length_handed : (r.handed onLine s start data).length =
    (scan 0x0A (tail ++ start) data).1.length := by
  induction data generalizing r s tail start with
  | nil => rfl
  | cons c data ih =>
      by_cases hc : c = 0x0A
      · simp only [handed, scan, if_pos hc, List.length_cons]
        have hrest : ∀ {r : LineReader} {s : σ}, (r.handed onLine s [] data).length =
            (scan 0x0A ([] ++ []) data).1.length := ih
        exact congrArg (· + 1) hrest
      · simp only [handed, scan, if_neg hc, List.append_assoc]
        exact ih

theorem forall₂_append_iff {α β : Type} {R : α → β → Prop} {a a' : List α} {b b' : List β}
    (h : a.length = b.length) :
    List.Forall₂ R (a ++ a') (b ++ b') ↔ List.Forall₂ R a b ∧ List.Forall₂ R a' b' := by
  constructor
  · intro hall
    have htake := List.forall₂_take_append _ b b' hall
    have hdrop := List.forall₂_drop_append _ b b' hall
    rw [← h, List.take_left] at htake
    rw [← h, List.drop_left] at hdrop
    exact ⟨htake, hdrop⟩
  · exact fun ⟨ha, ha'⟩ => List.rel_append ha ha'

theorem Holds.parse (h : r.Holds tail) (s : σ) (hlen : data.length ≤ chunkSize) :
    (List.Forall₂ Whole (scan 0x0A tail data).1 (r.handed onLine s [] data) ↔
        ∀ l ∈ (scan 0x0A tail data).1, l.length + 1 ≤ chunkSize) ∧
      (r.parse onLine s data).1.Holds (scan 0x0A tail data).2 := by
  unfold LineReader.parse
  by_cases hdata : data = []
  case pos =>
    subst hdata
    exact ⟨iff_of_true .nil nofun, h⟩
  case neg =>
    rw [if_neg hdata]
    have hget : (List.Forall₂ Whole (scan 0x0A (tail ++ []) data).1 (r.handed onLine s [] data) ↔
        ∀ l ∈ (scan 0x0A (tail ++ []) data).1, l.length + 1 ≤ chunkSize) ∧
        (r.getline onLine s [] data).1.Holds (scan 0x0A (tail ++ []) data).2 :=
      h.handed s hlen fun hnil => absurd hnil hdata
    rwa [List.append_nil] at hget

theorem Holds.handedAll {chunks : List (List UInt8)} (h : r.Holds tail) (s : σ)
    (hlen : ∀ data ∈ chunks, data.length ≤ chunkSize) :
    List.Forall₂ Whole (scan 0x0A tail chunks.flatten).1 (r.handedAll onLine s chunks) ↔
      ∀ l ∈ (scan 0x0A tail chunks.flatten).1, l.length + 1 ≤ chunkSize := by
  induction chunks generalizing r tail s with
  | nil => exact iff_of_true .nil nofun
  | cons data chunks ih =>
      obtain ⟨hdata, hchunks⟩ := List.forall_mem_cons.mp hlen
      obtain ⟨hchunk, hholds⟩ := h.parse s hdata
      have hlength : (scan 0x0A tail data).1.length = (r.handed onLine s [] data).length := by
        have hhanded : (r.handed onLine s [] data).length =
            (scan 0x0A (tail ++ []) data).1.length := length_handed
        rw [hhanded, List.append_nil]
      rw [List.flatten_cons, Lines.scan_append, LineReader.handedAll, forall₂_append_iff hlength,
        hchunk, ih hholds (r.parse onLine s data).2 hchunks, List.forall_mem_append]

/-- Every line that the listener gets is whole if and only if no line is too long for the buffer. -/
theorem whole_iff {chunks : List (List UInt8)} (hlen : ∀ data ∈ chunks, data.length ≤ chunkSize)
    (onLine : σ → List UInt8 → σ × Bool) (s : σ) {lines : List (List UInt8)}
    (hsplit : IsSplit 0x0A chunks.flatten lines tail) :
    List.Forall₂ Whole lines (init.handedAll onLine s chunks) ↔
      ∀ l ∈ lines, l.length + 1 ≤ chunkSize := by
  have hscan := hsplit.scan_eq
  have hiff : List.Forall₂ Whole (scan 0x0A [] chunks.flatten).1 (init.handedAll onLine s chunks) ↔
      ∀ l ∈ (scan 0x0A [] chunks.flatten).1, l.length + 1 ≤ chunkSize :=
    (holds_nil held_none).handedAll s hlen
  rwa [hscan] at hiff

end

/-- The lines of two chunks. -/
theorem whole_iff_two : List.Forall₂ Whole [bytes "ab", bytes "cd"]
    (init.handedAll collect [] [bytes "ab\nc", bytes "d\n"]) := by
  have hsplit : IsSplit 0x0A [bytes "ab\nc", bytes "d\n"].flatten [bytes "ab", bytes "cd"] [] :=
    ⟨by decide, by decide, by decide⟩
  exact (whole_iff (by decide) collect [] hsplit).mpr (by decide)

/-- The last byte of a line that is one too long. -/
theorem hands_part : ∃ (chunks : List (List UInt8)) (line : List UInt8),
    (∀ data ∈ chunks, data.length ≤ chunkSize) ∧ IsSplit 0x0A chunks.flatten [line] [] ∧
      ¬ List.Forall₂ Whole [line] (init.handedAll collect [] chunks) := by
  have hlen : ∀ data ∈ [List.replicate chunkSize (0x61 : UInt8), [0x0A]],
      data.length ≤ chunkSize := by
    simp only [List.forall_mem_cons, List.length_replicate, List.length_singleton]
    exact ⟨Nat.le_refl _, by decide, nofun⟩
  have hsplit : IsSplit 0x0A [List.replicate chunkSize (0x61 : UInt8), [0x0A]].flatten
      [List.replicate chunkSize 0x61] [] := by
    refine ⟨?_, ?_, List.not_mem_nil⟩
    · simp
    · simp
  refine ⟨_, _, hlen, hsplit, ?_⟩
  have hiff : List.Forall₂ Whole (scan 0x0A [] _).1 (init.handedAll collect [] _) ↔ _ :=
    (holds_nil held_none).handedAll [] hlen
  rw [hsplit.scan_eq] at hiff
  rw [hiff]
  simp

end LineReader

end XLArig
