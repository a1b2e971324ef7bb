import XLArig.Machine

/-!
# XLArig.Lines

A stream of symbols that a separator cuts into lines.

`IsSplit` says what the lines of a stream are; `scan` finds them from left to right and
carries the line that has not ended yet, so that a stream can be scanned piece by piece
(`scan_append`).
-/

namespace Lines

variable {α : Type*} {sep : α} {s tail : List α} {lines : List (List α)}

/-- `lines` are the lines that the separator ends in `s`, without it, and `tail` is what
comes after them. -/
structure IsSplit (sep : α) (s : List α) (lines : List (List α)) (tail : List α) : Prop where
  join : (lines.map (· ++ [sep])).flatten ++ tail = s
  lines : ∀ l ∈ lines, sep ∉ l
  tail : sep ∉ tail

variable [DecidableEq α]

/-- The lines that end in `s`, for a line that began with `tail`, and what is left. -/
def scan (sep : α) : (tail s : List α) → List (List α) × List α
  | tail, [] => ([], tail)
  | tail, c :: s =>
      if c = sep then
        let (lines, rest) := scan sep [] s
        (tail :: lines, rest)
      else scan sep (tail ++ [c]) s

theorem scan_append (sep : α) (tail s t : List α) : scan sep tail (s ++ t) =
    ((scan sep tail s).1 ++ (scan sep (scan sep tail s).2 t).1,
      (scan sep (scan sep tail s).2 t).2) := by
  induction s generalizing tail with
  | nil => rfl
  | cons c s ih =>
      simp only [List.cons_append, scan]
      split
      · simp only [ih, List.cons_append]
      · exact ih _

/-- No line ends without a separator. -/
theorem scan_of_notMem (h : sep ∉ s) (tail : List α) : scan sep tail s = ([], tail ++ s) := by
  induction s generalizing tail with
  | nil => simp [scan]
  | cons c s ih =>
      obtain ⟨hc, hs⟩ : sep ≠ c ∧ sep ∉ s := by simpa using h
      rw [scan, if_neg (Ne.symm hc), ih hs]
      simp

theorem isSplit_scan (h : sep ∉ tail) :
    IsSplit sep (tail ++ s) (scan sep tail s).1 (scan sep tail s).2 := by
  induction s generalizing tail with
  | nil => exact ⟨by simp [scan], nofun, h⟩
  | cons c s ih =>
      simp only [scan]
      split
      · next hc =>
        have hrest : IsSplit sep ([] ++ s) (scan sep [] s).1 (scan sep [] s).2 := ih List.not_mem_nil
        refine ⟨?_, ?_, hrest.tail⟩
        · have hjoin := hrest.join
          simp only [List.nil_append] at hjoin
          simp [hc, hjoin]
        · exact List.forall_mem_cons.mpr ⟨h, hrest.lines⟩
      · next hc =>
        have hnext : sep ∉ tail ++ [c] := by simp [h, Ne.symm hc]
        simpa using ih hnext

/-- A stream has one set of lines: what `scan` finds. -/
theorem IsSplit.scan_eq (h : IsSplit sep s lines tail) : scan sep [] s = (lines, tail) := by
  obtain ⟨rfl, hlines, htail⟩ := h
  induction lines with
  | nil => simpa using scan_of_notMem htail []
  | cons l lines ih =>
      obtain ⟨hl, hlines⟩ := List.forall_mem_cons.mp hlines
      have hline : scan sep [] l = ([], l) := scan_of_notMem hl []
      have hrest : scan sep l (sep :: ((lines.map (· ++ [sep])).flatten ++ tail)) =
          (l :: lines, tail) := by
        simp only [scan, if_true, ih hlines]
      simp only [List.map_cons, List.flatten_cons, List.append_assoc, List.singleton_append]
      rw [scan_append, hline]
      simp only [List.cons_append, hrest]
      rfl

end Lines
