import XLArig.Dmi
import XLArig.Terminated
import XLArig.Tracks

/-!
# XLArig.Dmi.Strings

What `dmi_string` finds, and what it does to the table.

The table is the list `a ++ l ++ rest`: the bytes up to the end of the formatted area, those in
which strings are looked for, and others that no string runs into, because an empty string comes
first or because there are none (`Closed`).
-/

namespace XLArig

namespace Dmi

open Terminated

/-! ## Characters -/

/-- What `ascii_filter` makes of a character. -/
def dot (c : UInt8) : UInt8 := if c = 0 then 0 else if c < 32 ∨ 127 ≤ c then 0x2E else c

theorem dot_eq_zero_iff (c : UInt8) : dot c = 0 ↔ c = 0 := by
  unfold dot
  split_ifs with h0 h1 <;> simp [h0]

@[simp] theorem dot_dot (c : UInt8) : dot (dot c) = dot c := by
  have hrange : ¬ ((0x2E : UInt8) < 32 ∨ 127 ≤ (0x2E : UInt8)) := by decide
  unfold dot
  split_ifs <;> simp_all

@[simp] theorem dot_zero : dot 0 = 0 := rfl

/-- Some characters of `l` have been replaced in `m`. -/
def Dotted (l m : List UInt8) : Prop := List.Forall₂ (fun c d => d = c ∨ d = dot c) l m

namespace Dotted

variable {l m k p : List UInt8}

theorem refl (l : List UInt8) : Dotted l l := List.forall₂_same.mpr fun _ _ => .inl rfl

theorem trans (h : Dotted l m) (h' : Dotted m k) : Dotted l k := by
  induction h generalizing k with
  | nil => exact h'
  | cons hc _ ih =>
      cases h' with
      | cons hd ht =>
          refine .cons ?_ (ih ht)
          obtain rfl | rfl := hc
          · exact hd
          · rw [dot_dot, or_self] at hd
            exact .inr hd

theorem map_eq (h : Dotted l m) : m.map dot = l.map dot := by
  induction h with
  | nil => rfl
  | cons hc _ ih => obtain rfl | rfl := hc <;> simp [ih]

theorem append (h : Dotted l m) (h' : Dotted k p) : Dotted (l ++ k) (m ++ p) :=
  List.rel_append h h'

theorem map_dot (l : List UInt8) : Dotted l (l.map dot) := by
  induction l with
  | nil => exact .nil
  | cons c l ih => exact .cons (.inr rfl) ih

/-- Nothing is left to replace. -/
theorem eq_of_map (h : Dotted l m) (hl : l.map dot = l) : m = l := by
  induction h with
  | nil => rfl
  | cons hc _ ih =>
      obtain ⟨hdot, hl⟩ := List.cons.inj hl
      rw [hdot, or_self] at hc
      rw [hc, ih hl]

/-- The parts of a list. -/
theorem of_append (h : Dotted (l ++ k) m) : ∃ l' k', m = l' ++ k' ∧ Dotted l l' ∧ Dotted k k' := by
  induction l generalizing m with
  | nil => exact ⟨[], m, rfl, .nil, h⟩
  | cons c l ih =>
      cases h with
      | cons hc ht =>
          obtain ⟨l', k', rfl, hl, hk⟩ := ih ht
          exact ⟨_ :: l', k', rfl, .cons hc hl, hk⟩

end Dotted

/-! ## Looking for a string -/

/-- No string runs into `rest`. -/
def Closed (l rest : List UInt8) : Prop := rest = [] ∨ [] ∈ pieces 0 l

theorem untilZero_append {p : List UInt8} (hp : 0 ∉ p) (l : List UInt8) :
    untilZero (p ++ 0 :: l) = .ok p.length := by
  induction p with
  | nil => rfl
  | cons c p ih =>
      obtain ⟨hc, hp⟩ : 0 ≠ c ∧ 0 ∉ p := by simpa using hp
      simp [untilZero, Ne.symm hc, ih hp, Except.map]

theorem untilZero_of_not_mem {l : List UInt8} (hl : 0 ∉ l) : untilZero l = .error .outside := by
  induction l with
  | nil => rfl
  | cons c l ih =>
      obtain ⟨hc, hl⟩ : 0 ≠ c ∧ 0 ∉ l := by simpa using hl
      simp [untilZero, Ne.symm hc, ih hl, Except.map]

variable {a l p rest : List UInt8} {bp n s : Nat} {c : UInt8}

theorem peek_append (hbp : bp = a.length) (c : UInt8) (l : List UInt8) :
    peek bp (a ++ c :: l) = .ok (c, a ++ c :: l) := by
  simp [peek, hbp]

theorem peek_end (hbp : a.length ≤ bp) : peek bp a = .error .outside := by
  simp [peek, List.getElem?_eq_none hbp]

theorem strlen_append (hbp : bp = a.length) (hp : 0 ∉ p) (l : List UInt8) :
    strlen bp (a ++ (p ++ 0 :: l)) = .ok (p.length, a ++ (p ++ 0 :: l)) := by
  simp [strlen, hbp, untilZero_append hp, Except.map]

theorem strlen_end (hbp : bp = a.length) (hl : 0 ∉ l) :
    strlen bp (a ++ l) = .error .outside := by
  simp [strlen, hbp, untilZero_of_not_mem hl, Except.map]

/-- The characters that are replaced, from the left. -/
theorem asciiFilter_run (hbp : bp = a.length) (hp : 0 ∉ p) (hn : n ≤ p.length) :
    asciiFilter bp n (a ++ (p ++ l)) = .ok ((), a ++ ((p.take n).map dot ++ p.drop n ++ l)) := by
  induction n with
  | zero => simp [asciiFilter]; rfl
  | succ n ih =>
      have hlt : n < p.length := hn
      have hzero : p[n] ≠ 0 := fun h => hp (h ▸ List.getElem_mem hlt)
      have hdrop : p.drop n = p[n] :: p.drop (n + 1) := List.drop_eq_getElem_cons hlt
      have htake : (p.take (n + 1)).map dot = (p.take n).map dot ++ [dot p[n]] := by
        rw [← List.take_append_getElem hlt, List.map_append, List.map_singleton]
      have hstate : a ++ ((p.take n).map dot ++ p.drop n ++ l) =
          (a ++ (p.take n).map dot) ++ p[n] :: (p.drop (n + 1) ++ l) := by
        rw [hdrop]
        simp only [List.append_assoc, List.cons_append]
      have hlen : bp + n = (a ++ (p.take n).map dot).length := by simp [hbp]; omega
      have hpoke : ∀ d, poke (bp + n) d ((a ++ (p.take n).map dot) ++ p[n] :: (p.drop (n + 1) ++ l)) =
          .ok ((), (a ++ (p.take n).map dot) ++ d :: (p.drop (n + 1) ++ l)) := by
        intro d
        rw [poke, if_pos (by simp [hlen]), hlen, List.set_append_right _ _ le_rfl, Nat.sub_self,
          List.set_cons_zero]
      rw [asciiFilter, StateT.bind_eq, ih (by omega), hstate]
      simp only [Except.bind]
      rw [StateT.bind_eq, peek_append hlen]
      simp only [Except.bind]
      by_cases hc : p[n] < 32 ∨ 127 ≤ p[n]
      · rw [if_pos hc, hpoke, htake]
        simp [dot, hzero, hc]
      · rw [if_neg hc, htake]
        have hdot : dot p[n] = p[n] := by simp [dot, hzero, hc]
        rw [hdot]
        simp only [pure, StateT.pure, Except.pure, List.append_assoc, List.cons_append,
          List.nil_append]

/-- What string number `n` is for the code, which counts from 1 and takes 0 for 1. -/
def textAt (l : List UInt8) (n : UInt8) : Except Fault CString :=
  match (texts 0 l)[n.toNat - 1]? with
  | some p => .ok (some (p.map dot))
  | none => if [] ∈ pieces 0 l then .ok none else .error .outside

/-- What is left of `_dmi_string` at a string. -/
def finishString (bp : Nat) : Run (Option Nat) := do
  let c ← peek bp
  if c = 0 then pure none
  else do
    let len ← strlen bp
    asciiFilter bp len
    pure (some bp)

theorem finishString_zero (hbp : bp = a.length) :
    finishString bp (a ++ 0 :: l) = .ok (none, a ++ 0 :: l) := by
  rw [finishString, StateT.bind_eq, peek_append hbp]
  rfl

theorem finishString_text (hbp : bp = a.length) (hp : 0 ∉ p) (hne : p ≠ []) :
    finishString bp (a ++ (p ++ 0 :: l)) = .ok (some bp, a ++ (p.map dot ++ 0 :: l)) := by
  obtain ⟨c, q, rfl⟩ := List.exists_cons_of_ne_nil hne
  have hc : c ≠ 0 := fun h => hp (by simp [h])
  rw [finishString, StateT.bind_eq, List.cons_append, peek_append hbp]
  simp only [Except.bind, if_neg hc]
  rw [StateT.bind_eq, ← List.cons_append, strlen_append hbp hp]
  simp only [Except.bind]
  rw [StateT.bind_eq, asciiFilter_run hbp hp le_rfl]
  simp [Except.bind, pure, StateT.pure, Except.pure]

/-- Without a zero, the search leaves the table. -/
theorem finishString_end (hbp : bp = a.length) (hl : 0 ∉ l) :
    finishString bp (a ++ l) = .error .outside := by
  rw [finishString, StateT.bind_eq]
  cases l with
  | nil => rw [List.append_nil, peek_end (by omega)]; rfl
  | cons c l =>
      have hc : c ≠ 0 := fun h => hl (by simp [h])
      rw [peek_append hbp]
      simp only [Except.bind, if_neg hc]
      rw [StateT.bind_eq, strlen_end hbp hl]
      rfl

theorem skipStrings_zero (hbp : bp = a.length) :
    skipStrings s bp (a ++ 0 :: l) = .ok (bp, a ++ 0 :: l) := by
  match s with
  | 0 => rfl
  | 1 => rfl
  | s + 2 =>
      rw [skipStrings, StateT.bind_eq, peek_append hbp]
      rfl

theorem skipStrings_text (hbp : bp = a.length) (hp : 0 ∉ p) (hne : p ≠ []) :
    skipStrings (s + 2) bp (a ++ (p ++ 0 :: l)) =
      skipStrings (s + 1) (bp + p.length + 1) (a ++ (p ++ 0 :: l)) := by
  obtain ⟨c, q, rfl⟩ := List.exists_cons_of_ne_nil hne
  have hc : c ≠ 0 := fun h => hp (by simp [h])
  rw [skipStrings, StateT.bind_eq, List.cons_append, peek_append hbp]
  simp only [Except.bind, if_neg hc]
  rw [StateT.bind_eq, ← List.cons_append, strlen_append hbp hp]
  rfl

theorem skipStrings_end (hbp : bp = a.length) (hl : 0 ∉ l) :
    skipStrings (s + 2) bp (a ++ l) = .error .outside := by
  rw [skipStrings, StateT.bind_eq]
  cases l with
  | nil => rw [List.append_nil, peek_end (by omega)]; rfl
  | cons c l =>
      have hc : c ≠ 0 := fun h => hl (by simp [h])
      rw [peek_append hbp]
      simp only [Except.bind, if_neg hc]
      rw [StateT.bind_eq, strlen_end hbp hl]
      rfl

/-- What the search for string number `s` in the bytes `l` returns, and leaves in place of `l`. -/
def Searched (x : Run (Option Nat)) (a l rest : List UInt8) (bp s : Nat) : Prop :=
  match (texts 0 l)[s - 1]? with
  | some p => ∃ k n, l = k ++ p ++ 0 :: n ∧ 0 ∉ p ∧
      x (a ++ (l ++ rest)) = .ok (some (bp + k.length), a ++ (k ++ p.map dot ++ 0 :: n ++ rest))
  | none =>
      x (a ++ (l ++ rest)) =
        if [] ∈ pieces 0 l then .ok (none, a ++ (l ++ rest)) else .error .outside

/-- The search stops at the first piece: it is the string, or an empty one, or there is none. -/
theorem search_first (hbp : bp = a.length) (hclosed : Closed l rest) :
    Searched (finishString bp) a l rest bp 1 := by
  cases hps : pieces 0 l with
  | nil =>
      have hrest : rest = [] := hclosed.resolve_right (by simp [hps])
      simp [Searched, texts, hps, hrest, finishString_end hbp (pieces_eq_nil_iff.mp hps)]
  | cons p ps =>
      obtain ⟨r, rfl, hp, -⟩ := eq_append_of_pieces hps
      by_cases hne : p = []
      · subst hne
        simp [Searched, finishString_zero hbp]
      · have hrun := @finishString_text a (r ++ rest) p bp hbp hp hne
        simp only [Searched, texts_append hp hne, Nat.sub_self, List.getElem?_cons_zero]
        refine ⟨[], r, rfl, hp, ?_⟩
        simpa using hrun

theorem search_run (hbp : bp = a.length) (hclosed : Closed l rest) (s : Nat) :
    Searched (skipStrings s bp >>= finishString) a l rest bp s := by
  induction s generalizing a bp l with
  | zero => exact search_first hbp hclosed
  | succ s ih =>
      cases s with
      | zero => exact search_first hbp hclosed
      | succ s =>
          cases hps : pieces 0 l with
          | nil =>
              have hrest : rest = [] := hclosed.resolve_right (by simp [hps])
              have hskip := @skipStrings_end a l bp s hbp (pieces_eq_nil_iff.mp hps)
              simp [Searched, texts, hps, hrest, StateT.bind_eq, hskip, Except.bind]
          | cons p ps =>
              obtain ⟨r, rfl, hp, hr⟩ := eq_append_of_pieces hps
              by_cases hne : p = []
              · subst hne
                simp [Searched, StateT.bind_eq, skipStrings_zero hbp, Except.bind,
                  finishString_zero hbp]
              · -- one string further on
                have hbp' : bp + p.length + 1 = (a ++ p ++ [0]).length := by
                  simp [hbp, Nat.add_assoc]
                have hclosed' : Closed r rest := by
                  refine hclosed.imp id fun hmem => ?_
                  rw [pieces_append hp] at hmem
                  exact (List.mem_cons.mp hmem).resolve_left (Ne.symm hne)
                have hnext := ih hbp' hclosed'
                have hskip : (skipStrings (s + 2) bp >>= finishString) (a ++ (p ++ 0 :: (r ++ rest))) =
                    (skipStrings (s + 1) (bp + p.length + 1) >>= finishString)
                      (a ++ (p ++ 0 :: (r ++ rest))) := by
                  rw [StateT.bind_eq, StateT.bind_eq, skipStrings_text hbp hp hne]
                have hmem : [] ∈ pieces 0 (p ++ 0 :: r) ↔ [] ∈ pieces 0 r := by
                  rw [pieces_append hp, List.mem_cons, or_iff_right (Ne.symm hne)]
                simp only [Searched, List.append_assoc, List.cons_append, List.nil_append, hskip, hmem,
                  texts_append hp hne, Nat.add_sub_cancel, List.getElem?_cons_succ] at hnext ⊢
                cases htext : (texts 0 r)[s]? with
                | none =>
                    simp only [htext] at hnext ⊢
                    exact hnext
                | some q =>
                    simp only [htext] at hnext ⊢
                    obtain ⟨k, n, rfl, hq, hrun⟩ := hnext
                    refine ⟨p ++ 0 :: k, n, by simp, hq, ?_⟩
                    rw [hrun]
                    simp [Nat.add_assoc, Nat.add_comm 1]

/-! ## Strings and pointers to them -/

/-- The tables in which some characters of `l` have been replaced. -/
def Scanned (a l rest b : List UInt8) : Prop := ∃ m, b = a ++ (m ++ rest) ∧ Dotted l m

/-- A pointer to a string without characters to replace, or none. -/
def Points (a l : List UInt8) (ptr : Option Nat) : CString → Prop
  | none => ptr = none
  | some q => q.map dot = q ∧ 0 ∉ q ∧
      ∃ k n, l = k ++ q ++ 0 :: n ∧ ptr = some (a.length + k.length)

variable {m : List UInt8} {ptr : Option Nat} {out : CString}

theorem Dotted.closed (h : Dotted l m) (hclosed : Closed l rest) : Closed m rest := by
  refine hclosed.imp id fun hmem => ?_
  have hpieces : (pieces 0 m).map (List.map dot) = (pieces 0 l).map (List.map dot) := by
    rw [← pieces_map dot_eq_zero_iff, ← pieces_map dot_eq_zero_iff, h.map_eq]
  have hnil : [] ∈ (pieces 0 m).map (List.map dot) := by
    rw [hpieces]
    exact List.mem_map.mpr ⟨[], hmem, rfl⟩
  simpa using hnil

theorem Dotted.textAt_eq (h : Dotted l m) (n : UInt8) : textAt m n = textAt l n := by
  have hpieces : (pieces 0 m).map (List.map dot) = (pieces 0 l).map (List.map dot) := by
    rw [← pieces_map dot_eq_zero_iff, ← pieces_map dot_eq_zero_iff, h.map_eq]
  have htexts : (texts 0 m).map (List.map dot) = (texts 0 l).map (List.map dot) := by
    rw [← texts_map dot_eq_zero_iff, ← texts_map dot_eq_zero_iff, h.map_eq]
  have hmem : [] ∈ pieces 0 m ↔ [] ∈ pieces 0 l := by
    have hnil := congrArg ([] ∈ ·) hpieces
    simpa using hnil
  have hget := congrArg (·[n.toNat - 1]?) htexts
  simp only [List.getElem?_map] at hget
  rw [textAt, textAt]
  cases hm : (texts 0 m)[n.toNat - 1]? with
  | none =>
      cases hl : (texts 0 l)[n.toNat - 1]? with
      | none => simp [hmem]
      | some q => simp [hm, hl] at hget
  | some p =>
      cases hl : (texts 0 l)[n.toNat - 1]? with
      | none => simp [hm, hl] at hget
      | some q => simpa [hm, hl] using hget

/-- Later replacements leave the string alone. -/
theorem Points.dotted (h : Points a l ptr out) (hm : Dotted l m) : Points a m ptr out := by
  cases out with
  | none => exact h
  | some q =>
      obtain ⟨hq, hzero, k, n, rfl, hptr⟩ := h
      obtain ⟨kq, t, rfl, hkq, ht⟩ := Dotted.of_append hm
      obtain ⟨k', q', rfl, hk, hq'⟩ := hkq.of_append
      cases ht with
      | cons hc ht =>
          rw [dot_zero, or_self] at hc
          rw [hc, hq'.eq_of_map hq]
          exact ⟨hq, hzero, k', _, rfl, by rw [hptr, List.Forall₂.length_eq hk]⟩

theorem copy_points (h : Points a l ptr out) :
    copy ptr (a ++ (l ++ rest)) = .ok (out, a ++ (l ++ rest)) := by
  cases out with
  | none =>
      obtain rfl := h
      rfl
  | some q =>
      obtain ⟨-, hzero, k, n, rfl, rfl⟩ := h
      have hstate : a ++ (k ++ q ++ 0 :: n ++ rest) = (a ++ k) ++ (q ++ 0 :: (n ++ rest)) := by simp
      have hlen : a.length + k.length = (a ++ k).length := by simp
      rw [copy, StateT.bind_eq, hstate, strlen_append hlen hzero]
      simp only [Except.bind]
      rw [hlen, List.drop_left, List.take_left]

theorem dmiStringAt_eq (dm : DmiHeader) (n : UInt8) :
    dmiStringAt dm n true =
      skipStrings n.toNat (dm.data + dm.length.toNat) >>= finishString := by
  refine congrArg (skipStrings _ _ >>= ·) (funext fun bp => ?_)
  simp [finishString]

/-- What `_dmi_string` points at. -/
theorem dmiStringAt_points {dm : DmiHeader} (hdm : dm.data + dm.length.toNat = a.length)
    (hclosed : Closed l rest) (n : UInt8) :
    match textAt l n with
    | .ok out => ∃ ptr m, dmiStringAt dm n true (a ++ (l ++ rest)) = .ok (ptr, a ++ (m ++ rest)) ∧
        Dotted l m ∧ Points a m ptr out
    | .error e => dmiStringAt dm n true (a ++ (l ++ rest)) = .error e := by
  have hrun := search_run hdm hclosed n.toNat
  rw [dmiStringAt_eq, textAt]
  simp only [Searched] at hrun
  cases htext : (texts 0 l)[n.toNat - 1]? with
  | none =>
      simp only [htext] at hrun
      by_cases hmem : [] ∈ pieces 0 l
      · rw [if_pos hmem] at hrun
        simp only [if_pos hmem]
        exact ⟨none, l, hrun, .refl l, rfl⟩
      · rw [if_neg hmem] at hrun
        simp only [if_neg hmem]
        exact hrun
  | some p =>
      simp only [htext] at hrun
      obtain ⟨k, t, rfl, hp, hrun⟩ := hrun
      refine ⟨_, _, hrun, ?_, ?_, ?_, k, t, rfl, by rw [hdm]⟩
      · exact ((Dotted.refl k).append (.map_dot p)).append (.refl _)
      · simp
      · simpa [dot_eq_zero_iff] using hp

end Dmi

end XLArig
