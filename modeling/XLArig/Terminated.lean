import Mathlib

/-!
# XLArig.Terminated

Lists cut into pieces that a letter `z` ends, as a C string is ended by a zero byte.

`pieces` leaves out what follows the last `z`.  The pieces up to the first empty one are the
`texts` of the list.
-/

namespace Terminated

variable {α : Type*} [DecidableEq α]

/-- The pieces that end with `z`, without it. -/
def pieces (z : α) : List α → List (List α)
  | [] => []
  | c :: l =>
      if c = z then [] :: pieces z l
      else
        match pieces z l with
        | [] => []
        | p :: ps => (c :: p) :: ps

/-- The pieces before the first empty one. -/
def texts (z : α) (l : List α) : List (List α) := (pieces z l).takeWhile fun p => p ≠ []

variable {z : α} {l m p : List α} {ps : List (List α)}

@[simp] theorem pieces_cons_self (z : α) (l : List α) : pieces z (z :: l) = [] :: pieces z l := by
  simp [pieces]

theorem pieces_eq_nil_iff : pieces z l = [] ↔ z ∉ l := by
  induction l with
  | nil => simp [pieces]
  | cons c l ih =>
      by_cases hc : c = z
      · simp [hc]
      · cases hps : pieces z l with
        | nil => simpa [pieces, hc, hps, Ne.symm hc] using ih.mp hps
        | cons p ps => simpa [pieces, hc, hps, Ne.symm hc] using ih.not.mp (by simp [hps])

/-- The first piece. -/
theorem pieces_append (hp : z ∉ p) (l : List α) : pieces z (p ++ z :: l) = p :: pieces z l := by
  induction p with
  | nil => simp
  | cons c p ih =>
      obtain ⟨hc, hp⟩ : z ≠ c ∧ z ∉ p := by simpa using hp
      simp [pieces, Ne.symm hc, ih hp]

/-- A list that has a piece is its first one, `z` and the rest. -/
theorem eq_append_of_pieces (h : pieces z l = p :: ps) :
    ∃ r, l = p ++ z :: r ∧ z ∉ p ∧ pieces z r = ps := by
  have hmem : z ∈ l := by
    by_contra hnot
    rw [pieces_eq_nil_iff.mpr hnot] at h
    cases h
  obtain ⟨q, r, rfl, hq⟩ := List.eq_append_cons_of_mem hmem
  rw [pieces_append hq] at h
  obtain ⟨rfl, rfl⟩ := List.cons.inj h
  exact ⟨r, rfl, hq, rfl⟩

/-- Behind a `z`, the pieces start anew. -/
theorem pieces_append_cons (z : α) (l m : List α) :
    pieces z (l ++ z :: m) = pieces z (l ++ [z]) ++ pieces z m := by
  induction l with
  | nil => simp [pieces]
  | cons c l ih =>
      by_cases hc : c = z
      · simp [hc, ih]
      · cases hps : pieces z (l ++ [z]) with
        | nil => exact absurd hps (pieces_eq_nil_iff.not.mpr (by simp))
        | cons p ps => simp [pieces, hc, ih, hps]

/-- A map that keeps `z`, and brings about no other. -/
theorem pieces_map {f : α → α} (hf : ∀ c, f c = z ↔ c = z) (l : List α) :
    pieces z (l.map f) = (pieces z l).map (List.map f) := by
  induction l with
  | nil => rfl
  | cons c l ih =>
      by_cases hc : c = z
      · have hz : f z = z := (hf z).mpr rfl
        simp [hc, hz, ih]
      · have hne : f c ≠ z := (hf c).not.mpr hc
        cases hps : pieces z l with
        | nil => simp [pieces, hc, hne, ih, hps]
        | cons p ps => simp [pieces, hc, hne, ih, hps]

/-! ## Texts -/

theorem texts_map {f : α → α} (hf : ∀ c, f c = z ↔ c = z) (l : List α) :
    texts z (l.map f) = (texts z l).map (List.map f) := by
  rw [texts, texts, pieces_map hf, List.takeWhile_map]
  congr 1
  refine congrArg (List.takeWhile · _) (funext fun p => ?_)
  simp

/-- What follows an empty piece does not count. -/
theorem texts_append_cons (h : [] ∈ pieces z (l ++ [z])) :
    texts z (l ++ z :: m) = texts z (l ++ [z]) := by
  rw [texts, texts, pieces_append_cons, List.takeWhile_append, if_neg]
  intro hlen
  have hall := (List.takeWhile_prefix _).eq_of_length hlen
  have hp := List.mem_takeWhile_imp (hall ▸ h)
  simp at hp

/-- The first text. -/
theorem texts_append (hp : z ∉ p) (hne : p ≠ []) (l : List α) :
    texts z (p ++ z :: l) = p :: texts z l := by
  simp [texts, pieces_append hp, hne]

@[simp] theorem texts_cons_self (z : α) (l : List α) : texts z (z :: l) = [] := by
  simp [texts]

/-- Texts written one after the other are read back. -/
theorem texts_flatMap {ts : List (List α)} (h : ∀ t ∈ ts, t ≠ [] ∧ z ∉ t) (l : List α) :
    texts z (ts.flatMap (fun t => t ++ [z]) ++ z :: l) = ts := by
  induction ts with
  | nil => simp
  | cons t ts ih =>
      obtain ⟨⟨hne, ht⟩, hts⟩ := List.forall_mem_cons.mp h
      have hsplit : (t :: ts).flatMap (fun t => t ++ [z]) ++ z :: l =
          t ++ z :: (ts.flatMap (fun t => t ++ [z]) ++ z :: l) := by simp
      rw [hsplit, texts_append ht hne, ih hts]

end Terminated
