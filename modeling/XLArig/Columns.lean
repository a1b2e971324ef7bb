import Mathlib

/-!
# XLArig.Columns

Lists dealt in columns.

Column `k` of some lists has the entry `k` of every list that has one.  `Dealt rows k l` says that
`l` takes the columns from `k` on, one after another and each in any order, and that it may end
within a column.  Then an entry is taken only once all entries of the column before it are
(`Dealt.before`), and none is taken twice (`Dealt.subperm`).
-/

namespace XLArig

variable {α : Type*}

/-- The entries `k` of the lists. -/
def column (k : Nat) (rows : List (List α)) : List α := rows.filterMap (·[k]?)

/-- All entries from `k` on. -/
def columnsFrom (k : Nat) (rows : List (List α)) : List α := rows.flatMap (·.drop k)

section

variable {rows rows' : List (List α)} {row row' : List α} {k i j : Nat} {x y : α} {l r : List α}

theorem mem_column : x ∈ column k rows ↔ ∃ row ∈ rows, row[k]? = some x := List.mem_filterMap

theorem column_perm (h : rows.Perm rows') : (column k rows).Perm (column k rows') := h.filterMap _

theorem columnsFrom_perm (h : rows.Perm rows') : (columnsFrom k rows).Perm (columnsFrom k rows') :=
  h.flatMap_right _

theorem columnsFrom_zero (rows : List (List α)) : columnsFrom 0 rows = rows.flatten := by
  simp [columnsFrom, List.flatMap_def]

/-- Column `k` and all that follow it. -/
theorem column_append_perm (k : Nat) (rows : List (List α)) :
    (column k rows ++ columnsFrom (k + 1) rows).Perm (columnsFrom k rows) := by
  induction rows with
  | nil => exact .refl _
  | cons row rows ih =>
      have hrest : columnsFrom (k + 1) (row :: rows) =
          row.drop (k + 1) ++ columnsFrom (k + 1) rows := rfl
      have hall : columnsFrom k (row :: rows) = row.drop k ++ columnsFrom k rows := rfl
      rw [hrest, hall]
      cases hget : row[k]? with
      | none =>
          have hlen := List.getElem?_eq_none_iff.mp hget
          have hcolumn : column k (row :: rows) = column k rows := by simp [column, hget]
          rw [hcolumn, List.drop_eq_nil_of_le hlen, List.drop_eq_nil_of_le (by omega)]
          exact ih
      | some x =>
          have hcolumn : column k (row :: rows) = x :: column k rows := by simp [column, hget]
          have hdrop : row.drop k = x :: row.drop (k + 1) := by
            obtain ⟨hlt, rfl⟩ := List.getElem?_eq_some_iff.mp hget
            exact List.drop_eq_getElem_cons hlt
          rw [hcolumn, hdrop, List.cons_append, List.cons_append]
          refine List.Perm.cons x (List.Perm.trans ?_ (List.Perm.append_left _ ih))
          exact List.perm_append_comm_assoc ..

theorem length_columns (k : Nat) (rows : List (List α)) :
    (columnsFrom k rows).length = (column k rows).length + (columnsFrom (k + 1) rows).length := by
  rw [← (column_append_perm k rows).length_eq, List.length_append]

/-- Where nothing is there twice, an entry is in one column only. -/
theorem column_unique (h : rows.flatten.Nodup) (hrow : row ∈ rows) (hx : row[i]? = some x)
    (hrow' : row' ∈ rows) (hx' : row'[j]? = some x) : i = j := by
  obtain ⟨hnodup, hdisjoint⟩ := List.nodup_flatten.mp h
  by_cases heq : row = row'
  · subst heq
    obtain ⟨hi, hix⟩ := List.getElem?_eq_some_iff.mp hx
    obtain ⟨hj, hjx⟩ := List.getElem?_eq_some_iff.mp hx'
    exact (hnodup row hrow).getElem_inj_iff.mp (hix.trans hjx.symm)
  · have hsymm : Std.Symm (@List.Disjoint α) := ⟨fun _ _ h => h.symm⟩
    have hne := hdisjoint.forall hrow hrow' heq
    exact absurd (List.mem_of_getElem? hx') (hne (List.mem_of_getElem? hx))

/-! ## Dealing -/

/-- Columns from `k` on, each in any order, up to a place within one of them. -/
inductive Dealt (rows : List (List α)) : Nat → List α → Prop
  | last {k : Nat} {r : List α} : r.Subperm (column k rows) → Dealt rows k r
  | round {k : Nat} {r l : List α} :
      r.Perm (column k rows) → Dealt rows (k + 1) l → Dealt rows k (r ++ l)

theorem Dealt.of_perm (hd : Dealt rows k l) (h : rows.Perm rows') : Dealt rows' k l := by
  induction hd with
  | last hr => exact .last (hr.trans (column_perm h).subperm)
  | round hr _ ih => exact .round (hr.trans (column_perm h)) ih

/-- Nothing is taken twice. -/
theorem Dealt.subperm (hd : Dealt rows k l) : l.Subperm (columnsFrom k rows) := by
  induction hd with
  | last hr =>
      exact (hr.trans (List.sublist_append_left _ _).subperm).trans
        (column_append_perm _ _).subperm
  | round hr _ ih => exact (hr.subperm.append ih).trans (column_append_perm _ _).subperm

/-- Before an entry there are all entries of the column before its own. -/
theorem Dealt.before (hd : Dealt rows k l) (h : rows.flatten.Nodup) {first rest : List α}
    (hl : l = first ++ x :: rest) (hrow : row ∈ rows) (hx : row[j + 1]? = some x)
    (hrow' : row' ∈ rows) (hy : row'[j]? = some y) (hj : k ≤ j) : y ∈ first := by
  have hlater : ∀ {k r}, r ⊆ column k rows → k ≤ j → x ∉ r := by
    intro k r hr hj hmem
    obtain ⟨other, hother, hk⟩ := mem_column.mp (hr hmem)
    have heq := column_unique h hrow hx hother hk
    omega
  induction hd generalizing first with
  | last hr =>
      refine absurd ?_ (hlater hr.subset hj)
      rw [hl]
      exact List.mem_append_right _ List.mem_cons_self
  | @round k r l hr hd ih =>
      have hlate : ∀ t, first = r ++ t → l = t ++ x :: rest → y ∈ first := by
        rintro t rfl ht
        rcases Nat.eq_or_lt_of_le hj with rfl | hlt
        · exact List.mem_append_left _ (hr.symm.subset (mem_column.mpr ⟨row', hrow', hy⟩))
        · exact List.mem_append_right _ (ih ht hlt)
      rcases List.append_eq_append_iff.mp hl with ⟨t, hfirst, hl⟩ | ⟨t, hr', hrest⟩
      · exact hlate t hfirst hl
      · cases t with
        | nil => exact hlate [] (by simpa using hr'.symm) hrest.symm
        | cons z t =>
            obtain ⟨rfl, -⟩ := List.cons.inj hrest
            refine absurd ?_ (hlater hr.subset hj)
            rw [hr']
            exact List.mem_append_right _ List.mem_cons_self

end

end XLArig
