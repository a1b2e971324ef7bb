import Mathlib

/-!
# XLArig.Escapes

Escape sequences in a text: one begins with two letters `e` and `o`, and ends with the next `m`.

`remove` takes them out in one pass from the left.  What is taken out can bring an `e` and an `o`
together, and then the sequence that they begin is taken out too; so nothing begins a sequence any
more in the end (`free_remove`), and it is the same to take out the first sequence and go on with
what is left (`remove_first`).
-/

namespace Escapes

variable {α : Type*}

/-- Nothing begins a sequence. -/
def Free (e o : α) (l : List α) : Prop := ¬ [e, o] <:+: l

theorem free_singleton (e o x : α) : Free e o [x] :=
  fun hin => absurd hin.length_le (by simp)

variable [DecidableEq α] (e o m : α)

/-- The pass, with what is kept so far, the last letter first; `inside` says that it is inside a
sequence. -/
def scan : (inside : Bool) → List α → List α → List α
  | _, out, [] => out.reverse
  | true, out, x :: l => scan (x ≠ m) out l
  | false, out, x :: l =>
      if x = o ∧ out.head? = some e then scan true out.tail l else scan false (x :: out) l

def remove (l : List α) : List α := scan e o m false [] l

variable {e o m} {out a b l : List α} {x : α} {inside : Bool}

omit [DecidableEq α] in
theorem Free.of_append (h : Free e o (a ++ l)) : Free e o a :=
  fun hin => h (hin.trans (List.prefix_append a l).isInfix)

omit [DecidableEq α] in
/-- One letter more. -/
theorem free_concat_iff :
    Free e o (a ++ [x]) ↔ Free e o a ∧ ¬ (x = o ∧ a.getLast? = some e) := by
  have hlast : [e, o] <:+ a ++ [x] ↔ x = o ∧ a.getLast? = some e := by
    constructor
    · rintro ⟨t, ht⟩
      have hsplit : (t ++ [e]) ++ [o] = a ++ [x] := by simpa using ht
      obtain ⟨rfl, hx⟩ := List.append_inj' hsplit rfl
      exact ⟨(List.cons.inj hx).1.symm, by simp⟩
    · rintro ⟨rfl, he⟩
      obtain ⟨t, rfl⟩ := List.getLast?_eq_some_iff.mp he
      exact ⟨t, by simp⟩
  unfold Free
  rw [List.infix_concat_iff, hlast]
  tauto

omit [DecidableEq α] in
theorem Free.append (h : Free e o a) (hl : o ∉ l) : Free e o (a ++ l) := by
  induction l generalizing a with
  | nil => simpa using h
  | cons x l ih =>
      obtain ⟨hx, hl⟩ : o ≠ x ∧ o ∉ l := by simpa using hl
      have hconcat : Free e o (a ++ [x]) := free_concat_iff.mpr ⟨h, fun hlast => hx hlast.1.symm⟩
      simpa using ih hconcat hl

omit [DecidableEq α] in
/-- The first sequence of a text that has one. -/
theorem exists_first (heo : e ≠ o) (h : ¬ Free e o l) :
    ∃ a b, l = a ++ e :: o :: b ∧ Free e o (a ++ [e]) := by
  induction l with
  | nil => exact absurd (by simp [Free]) h
  | cons x l ih =>
      by_cases hfirst : [e, o] <+: x :: l
      · obtain ⟨b, hb⟩ := hfirst
        exact ⟨[], b, hb.symm, free_singleton e o e⟩
      · have hrest : ¬ Free e o l := fun hfree => by
          refine h fun hin => ?_
          rcases List.infix_cons_iff.mp hin with hpre | hin
          · exact hfirst hpre
          · exact hfree hin
        obtain ⟨a, b, rfl, ha⟩ := ih hrest
        refine ⟨x :: a, b, rfl, fun hin => ?_⟩
        rcases List.infix_cons_iff.mp hin with hpre | hin
        · obtain ⟨rfl, hnext⟩ := List.cons_prefix_cons.mp hpre
          cases a with
          | nil => exact heo (List.cons_prefix_cons.mp hnext).1.symm
          | cons y a =>
              obtain ⟨rfl, -⟩ := List.cons_prefix_cons.mp hnext
              exact hfirst ⟨_, rfl⟩
        · exact ha hin

/-- A letter that begins nothing is kept. -/
theorem scan_keep (h : Free e o (out.reverse ++ [x])) :
    scan e o m false out (x :: l) = scan e o m false (x :: out) l := by
  have hnot := (free_concat_iff.mp h).2
  rw [List.getLast?_reverse] at hnot
  rw [scan, if_neg hnot]

theorem scan_append (h : Free e o (out.reverse ++ a)) :
    scan e o m false out (a ++ l) = scan e o m false (a.reverse ++ out) l := by
  induction a generalizing out with
  | nil => rfl
  | cons x a ih =>
      have hsplit : out.reverse ++ x :: a = (out.reverse ++ [x]) ++ a := by simp
      rw [hsplit] at h
      rw [List.cons_append, scan_keep h.of_append, ih (by simpa using h)]
      simp

/-- What is inside a sequence is left out. -/
theorem scan_inside (h : m ∉ b) :
    scan e o m true out (b ++ m :: l) = scan e o m false out l := by
  induction b with
  | nil => simp [scan]
  | cons x b ih =>
      obtain ⟨hx, hb⟩ : m ≠ x ∧ m ∉ b := by simpa using h
      rw [List.cons_append, scan, decide_eq_true (Ne.symm hx)]
      exact ih hb

theorem remove_of_free (h : Free e o l) : remove e o m l = l := by
  have hscan : scan e o m false [] (l ++ []) = scan e o m false (l.reverse ++ []) [] :=
    scan_append h
  simpa [remove, scan] using hscan

/-- The first sequence may be taken out before. -/
theorem remove_first (ha : Free e o (a ++ [e])) (hb : m ∉ b) (l : List α) :
    remove e o m (a ++ e :: o :: (b ++ m :: l)) = remove e o m (a ++ l) := by
  have hsplit : a ++ e :: o :: (b ++ m :: l) = (a ++ [e]) ++ o :: (b ++ m :: l) := by simp
  unfold remove
  rw [hsplit, scan_append ha, scan_append ha.of_append]
  simp [scan, scan_inside hb]

/-- What is kept does not depend on what comes before, unless that ends with `e`. -/
theorem scan_base {base : List α} (h : base.head? ≠ some e) :
    scan e o m inside (out ++ base) l = base.reverse ++ scan e o m inside out l := by
  induction l generalizing inside out with
  | nil => cases inside <;> simp [scan]
  | cons x l ih =>
      cases inside with
      | true => exact ih
      | false =>
          cases out with
          | nil =>
              have hnot : ¬ (x = o ∧ (([] : List α) ++ base).head? = some e) := fun hx => h hx.2
              have hnil : ¬ (x = o ∧ ([] : List α).head? = some e) := by simp
              rw [scan, scan, if_neg hnot, if_neg hnil]
              show scan e o m false ([x] ++ base) l = _
              exact ih
          | cons y out =>
              rw [scan, scan]
              by_cases hx : x = o ∧ y = e
              · have hopen : x = o ∧ some y = some e := ⟨hx.1, congrArg some hx.2⟩
                rw [List.cons_append, List.head?_cons, List.head?_cons, if_pos hopen, if_pos hopen]
                exact ih
              · have hnot : ¬ (x = o ∧ some y = some e) := by simpa using hx
                rw [List.cons_append, List.head?_cons, List.head?_cons, if_neg hnot, if_neg hnot]
                show scan e o m false ((x :: y :: out) ++ base) l = _
                exact ih

theorem remove_append (h : Free e o a) (hlast : a.getLast? ≠ some e) (l : List α) :
    remove e o m (a ++ l) = a ++ remove e o m l := by
  have hbase : a.reverse.head? ≠ some e := by rwa [List.head?_reverse]
  have hscan : scan e o m false ([] ++ a.reverse) l =
      a.reverse.reverse ++ scan e o m false [] l := scan_base hbase
  unfold remove
  rw [scan_append (by simpa using h)]
  simpa using hscan

/-- A text is taken in parts. -/
theorem exists_scan (a : List α) (inside : Bool) (out : List α) :
    ∃ inside' out', ∀ l, scan e o m inside out (a ++ l) = scan e o m inside' out' l := by
  induction a generalizing inside out with
  | nil => exact ⟨inside, out, fun _ => rfl⟩
  | cons x a ih =>
      cases inside with
      | true =>
          obtain ⟨inside', out', h⟩ := ih (x ≠ m) out
          exact ⟨inside', out', h⟩
      | false =>
          by_cases hx : x = o ∧ out.head? = some e
          · obtain ⟨inside', out', h⟩ := ih true out.tail
            exact ⟨inside', out', fun l => by rw [List.cons_append, scan, if_pos hx, h]⟩
          · obtain ⟨inside', out', h⟩ := ih false (x :: out)
            exact ⟨inside', out', fun l => by rw [List.cons_append, scan, if_neg hx, h]⟩

theorem scan_of_not_mem (h : o ∉ l) : scan e o m false out l = out.reverse ++ l := by
  induction l generalizing out with
  | nil => simp [scan]
  | cons x l ih =>
      obtain ⟨hx, hl⟩ : o ≠ x ∧ o ∉ l := by simpa using h
      rw [scan, if_neg fun hopen => hx hopen.1.symm, ih hl]
      simp

/-- What follows the last sequence is kept, whether that was begun before or not. -/
theorem suffix_remove (heo : e ≠ o) (hme : m ≠ e) (hmo : m ≠ o) (hb : m ∉ b) (hl : o ∉ l) :
    l <:+ remove e o m (a ++ (e :: o :: b) ++ m :: l) := by
  obtain ⟨inside, out, hscan⟩ := exists_scan (e := e) (o := o) (m := m) a false []
  unfold remove
  rw [List.append_assoc, hscan]
  cases inside with
  | true =>
      have hnot : m ∉ e :: o :: b := by simp [hme, hmo, hb]
      rw [scan_inside hnot, scan_of_not_mem hl]
      exact List.suffix_append _ _
  | false =>
      have hopen : scan e o m false out (e :: o :: b ++ m :: l) =
          scan e o m true out (b ++ m :: l) := by
        simp [scan, heo]
      rw [hopen, scan_inside hb, scan_of_not_mem hl]
      exact List.suffix_append _ _

theorem mem_of_mem_remove (h : x ∈ remove e o m l) : x ∈ l := by
  have hscan : ∀ (l : List α) inside out, x ∈ scan e o m inside out l → x ∈ out ∨ x ∈ l := by
    intro l
    induction l with
    | nil => intro inside out h; cases inside <;> simpa [scan] using h
    | cons y l ih =>
        intro inside out h
        cases inside with
        | true => exact (ih _ out h).imp_right (List.mem_cons_of_mem y)
        | false =>
            rw [scan] at h
            split at h
            · exact (ih true _ h).imp List.mem_of_mem_tail (List.mem_cons_of_mem y)
            · obtain hout | hl := ih false _ h
              · exact (List.mem_cons.mp hout).elim (fun hy => .inr (hy ▸ List.mem_cons_self)) .inl
              · exact .inr (List.mem_cons_of_mem y hl)
  simpa using hscan l false [] h

/-- In the end nothing begins a sequence. -/
theorem free_remove (l : List α) : Free e o (remove e o m l) := by
  have hscan : ∀ l inside (out : List α), Free e o out.reverse →
      Free e o (scan e o m inside out l) := by
    intro l
    induction l with
    | nil => intro inside out h; cases inside <;> exact h
    | cons x l ih =>
        intro inside out h
        cases inside with
        | true => exact ih _ out h
        | false =>
            rw [scan]
            split
            · refine ih true out.tail ?_
              cases out with
              | nil => exact h
              | cons y out => exact Free.of_append (by simpa using h)
            · next hnot =>
              refine ih false (x :: out) ?_
              rw [List.reverse_cons, free_concat_iff, List.getLast?_reverse]
              exact ⟨h, hnot⟩
  exact hscan l false [] (by simp [Free])

end Escapes
