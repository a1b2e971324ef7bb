import Mathlib

/-!
# XLArig.OrdMap

Ordered maps, as `std::map` keeps them: the entries stand in the order of a comparison, and
two keys are the same to the map when neither comes before the other.

The comparison is any transitive one.  It need not be an order: a key may be the same as
many others, and is then found as the first of them.
-/

namespace XLArig

/-- A map whose keys are compared with `lt`. -/
@[ext]
structure OrdMap (κ β : Type) (lt : κ → κ → Bool) where
  entries : List (κ × β)
  sorted : entries.Pairwise fun x y => lt x.1 y.1 = true

namespace OrdMap

variable {κ β : Type} {lt : κ → κ → Bool}

/-- Neither key comes before the other. -/
def same (lt : κ → κ → Bool) (a b : κ) : Bool := !lt a b && !lt b a

def empty : OrdMap κ β lt := ⟨[], .nil⟩

/-- `find` and `at`. -/
def find? (m : OrdMap κ β lt) (k : κ) : Option β :=
  (m.entries.find? fun x => same lt x.1 k).map Prod.snd

/-- `count`, which is one at most. -/
def has (m : OrdMap κ β lt) (k : κ) : Bool := m.entries.any fun x => same lt x.1 k

def isEmpty (m : OrdMap κ β lt) : Bool := m.entries.isEmpty

/-- The entries with one more, before the first that does not come before it. -/
def put (lt : κ → κ → Bool) (l : List (κ × β)) (k : κ) (v : β) : List (κ × β) :=
  l.takeWhile (fun x => lt x.1 k) ++ (k, v) :: l.dropWhile (fun x => lt x.1 k)

theorem perm_put (l : List (κ × β)) (k : κ) (v : β) : (put lt l k v).Perm ((k, v) :: l) := by
  unfold put
  refine List.perm_middle.trans (List.Perm.cons _ ?_)
  rw [List.takeWhile_append_dropWhile]

@[simp] theorem mem_put {l : List (κ × β)} {k : κ} {v : β} {x : κ × β} :
    x ∈ put lt l k v ↔ x = (k, v) ∨ x ∈ l := by
  rw [(perm_put l k v).mem_iff, List.mem_cons]

/-- After the last key before `k` all keys are the same as `k` or come after it. -/
theorem sorted_put [IsTrans κ fun a b => lt a b = true] {l : List (κ × β)} {k : κ} (v : β)
    (hl : l.Pairwise fun x y => lt x.1 y.1 = true) (hk : ∀ x ∈ l, same lt x.1 k = false) :
    (put lt l k v).Pairwise fun x y => lt x.1 y.1 = true := by
  induction l with
  | nil => exact List.pairwise_singleton _ _
  | cons x l ih =>
      obtain ⟨hx, hl⟩ := List.pairwise_cons.mp hl
      have hrest : ∀ y ∈ l, same lt y.1 k = false := fun y hy => hk y (List.mem_cons_of_mem _ hy)
      unfold put
      cases hlt : lt x.1 k with
      | true =>
          simp only [List.takeWhile_cons, List.dropWhile_cons, hlt, if_true, List.cons_append]
          refine List.Pairwise.cons (fun y hy => ?_) (ih hl hrest)
          obtain rfl | hy := mem_put.mp hy
          · exact hlt
          · exact hx y hy
      | false =>
          have hafter : lt k x.1 = true := by
            have h := hk x List.mem_cons_self
            simpa [same, hlt] using h
          simp only [List.takeWhile_cons, List.dropWhile_cons, hlt, Bool.false_eq_true, if_false,
            List.nil_append]
          refine List.Pairwise.cons (fun y hy => ?_) (List.pairwise_cons.mpr ⟨hx, hl⟩)
          obtain rfl | hy := List.mem_cons.mp hy
          · exact hafter
          · exact IsTrans.trans (r := fun a b => lt a b = true) _ _ _ hafter (hx y hy)

theorem has_eq_false {m : OrdMap κ β lt} {k : κ} (h : ¬ m.has k = true) :
    ∀ x ∈ m.entries, same lt x.1 k = false := by
  intro x hx
  cases hsame : same lt x.1 k with
  | false => rfl
  | true => exact absurd (List.any_eq_true.mpr ⟨x, hx, hsame⟩) h

/-- `insert`, which leaves a value that is there. -/
def insert [IsTrans κ fun a b => lt a b = true] (m : OrdMap κ β lt) (k : κ) (v : β) :
    OrdMap κ β lt :=
  if h : m.has k = true then m else ⟨put lt m.entries k v, sorted_put v m.sorted (has_eq_false h)⟩

/-- The entries with another value for the key. -/
def replace (lt : κ → κ → Bool) (l : List (κ × β)) (k : κ) (v : β) : List (κ × β) :=
  l.map fun x => if same lt x.1 k then (x.1, v) else x

theorem sorted_replace {l : List (κ × β)} (k : κ) (v : β)
    (hl : l.Pairwise fun x y => lt x.1 y.1 = true) :
    (replace lt l k v).Pairwise fun x y => lt x.1 y.1 = true := by
  have hkey : ∀ x : κ × β, (if same lt x.1 k then (x.1, v) else x).1 = x.1 := by
    intro x
    split <;> rfl
  unfold replace
  rw [List.pairwise_map]
  simpa only [hkey] using hl

/-- `operator[]`, with a value assigned to it. -/
def assign [IsTrans κ fun a b => lt a b = true] (m : OrdMap κ β lt) (k : κ) (v : β) :
    OrdMap κ β lt :=
  if m.has k then ⟨replace lt m.entries k v, sorted_replace k v m.sorted⟩ else m.insert k v

/-- `erase`. -/
def erase (m : OrdMap κ β lt) (k : κ) : OrdMap κ β lt :=
  ⟨m.entries.filter fun x => !same lt x.1 k, m.sorted.filter _⟩

/-- The values replaced by what `f` makes of them. -/
def mapVal {γ : Type} (m : OrdMap κ β lt) (f : κ → β → γ) : OrdMap κ γ lt :=
  ⟨m.entries.map fun x => (x.1, f x.1 x.2), List.pairwise_map.mpr m.sorted⟩

/-! ## What is in a map -/

variable {m : OrdMap κ β lt} {k k' : κ} {v : β}

theorem has_iff : m.has k = true ↔ ∃ x ∈ m.entries, same lt x.1 k = true := List.any_eq_true

theorem isSome_find? : (m.find? k).isSome = m.has k := by
  rw [find?, has, Option.isSome_map, Bool.eq_iff_iff, List.find?_isSome, List.any_eq_true]

theorem mem_of_find? (h : m.find? k = some v) : ∃ x ∈ m.entries, same lt x.1 k = true ∧ x.2 = v := by
  obtain ⟨x, hx, rfl⟩ := Option.map_eq_some_iff.mp h
  exact ⟨x, List.mem_of_find?_eq_some hx, by simpa using List.find?_some hx, rfl⟩

/-- Where no two keys are the same to the map, an entry is found by its key. -/
theorem find?_of_mem {m : OrdMap κ β lt} {k : κ} {v : β}
    (hsame : ∀ {a b}, same lt a b = true ↔ a = b) (h : (k, v) ∈ m.entries) :
    m.find? k = some v := by
  obtain ⟨entries, sorted⟩ := m
  simp only [find?, Option.map_eq_some_iff]
  refine ⟨(k, v), ?_, rfl⟩
  induction entries with
  | nil => exact absurd h List.not_mem_nil
  | cons x l ih =>
      obtain ⟨hx, hl⟩ := List.pairwise_cons.mp sorted
      obtain rfl | h := List.mem_cons.mp h
      · have heq : same lt k k = true := hsame.mpr rfl
        simp [heq]
      · have hne : same lt x.1 k = false := by
          simp [same, hx _ h]
        simpa [List.find?_cons, hne] using ih hl h

theorem find?_eq_some (hsame : ∀ {a b}, same lt a b = true ↔ a = b) :
    m.find? k = some v ↔ (k, v) ∈ m.entries := by
  constructor
  · intro h
    obtain ⟨x, hx, hkey, rfl⟩ := mem_of_find? h
    rwa [← hsame.mp hkey]
  · exact find?_of_mem hsame

theorem isEmpty_iff : m.isEmpty = true ↔ m.entries = [] := List.isEmpty_iff

theorem isEmpty_iff_find? (hsame : ∀ {a b}, same lt a b = true ↔ a = b) :
    m.isEmpty = true ↔ ∀ k, m.find? k = none := by
  rw [isEmpty_iff, List.eq_nil_iff_forall_not_mem]
  constructor
  · intro h k
    refine Option.eq_none_iff_forall_ne_some.mpr fun v hv => ?_
    exact h _ ((find?_eq_some hsame).mp hv)
  · intro h x hx
    exact Option.some_ne_none _ ((find?_of_mem hsame hx).symm.trans (h x.1))

/-- A map of one entry has one key. -/
theorem eq_of_length_le_one (hsame : ∀ {a b}, same lt a b = true ↔ a = b) {v' : β}
    (hm : m.entries.length ≤ 1) (h : m.find? k = some v) (h' : m.find? k' = some v') : k = k' := by
  have hk := (find?_eq_some hsame).mp h
  have hk' := (find?_eq_some hsame).mp h'
  match hentries : m.entries with
  | [] => simp [hentries] at hk
  | [x] =>
      simp only [hentries, List.mem_singleton] at hk hk'
      exact congrArg Prod.fst (hk.trans hk'.symm)
  | x :: y :: l => simp [hentries] at hm

theorem find?_mapVal {γ : Type} (hsame : ∀ {a b}, same lt a b = true ↔ a = b) (f : κ → β → γ)
    (k : κ) : (m.mapVal f).find? k = (m.find? k).map (f k) := by
  unfold mapVal find?
  rw [List.find?_map, Option.map_map, Option.map_map]
  change Option.map _ (m.entries.find? fun x => same lt x.1 k) = _
  cases hx : m.entries.find? fun x => same lt x.1 k with
  | none => rfl
  | some x =>
      have hkey : x.1 = k := hsame.mp (by simpa using List.find?_some hx)
      simp [hkey]

@[simp] theorem mem_erase {x : κ × β} :
    x ∈ (m.erase k).entries ↔ x ∈ m.entries ∧ same lt x.1 k = false := by
  simp [erase, List.mem_filter]

section

variable [IsTrans κ fun a b => lt a b = true]

theorem insert_of_has (h : m.has k = true) : m.insert k v = m := dif_pos h

theorem entries_insert (h : ¬ m.has k = true) : (m.insert k v).entries = put lt m.entries k v := by
  unfold insert
  rw [dif_neg h]

/-- What is there stays, and what is new is found. -/
theorem find?_insert (hsame : ∀ {a b}, same lt a b = true ↔ a = b) (k' : κ) :
    (m.insert k v).find? k' = (m.find? k').or (if same lt k k' then some v else none) := by
  by_cases hk : m.has k = true
  · rw [insert_of_has hk]
    split
    · next hkk =>
        rw [← hsame.mp hkk] at *
        rw [← isSome_find?] at hk
        exact (Option.or_of_isSome hk).symm
    · exact (Option.or_none).symm
  · refine Option.ext fun w => ?_
    rw [find?_eq_some hsame, entries_insert hk, mem_put, Option.or_eq_some_iff,
      find?_eq_some hsame]
    constructor
    · rintro (h | h)
      · obtain ⟨rfl, rfl⟩ := Prod.mk.inj h
        have hnone : m.find? k' = none := by
          rw [← isSome_find?, Option.not_isSome_iff_eq_none] at hk
          exact hk
        exact .inr ⟨hnone, if_pos (hsame.mpr rfl)⟩
      · exact .inl h
    · rintro (h | ⟨-, h⟩)
      · exact .inr h
      · rw [Option.ite_none_right_eq_some, hsame, Option.some.injEq] at h
        obtain ⟨rfl, rfl⟩ := h
        exact .inl rfl

/-- An assigned key has the value, and the others keep theirs. -/
theorem find?_assign (hsame : ∀ {a b}, same lt a b = true ↔ a = b) (hk : m.has k = true)
    (k' : κ) : (m.assign k v).find? k' = if same lt k k' then some v else m.find? k' := by
  have hassign : m.assign k v = m.mapVal fun k' v' => if same lt k' k then v else v' := by
    unfold assign mapVal
    rw [if_pos hk]
    refine OrdMap.ext (List.map_congr_left fun x _ => ?_)
    exact (apply_ite (Prod.mk x.1) _ _ _).symm
  rw [hassign, find?_mapVal hsame]
  by_cases h : k = k'
  · subst h
    obtain ⟨w, hw⟩ := Option.isSome_iff_exists.mp ((isSome_find? (m := m)).trans hk)
    simp [hsame.mpr rfl, hw]
  · have hne : same lt k' k = false := by
      rw [Bool.eq_false_iff, ne_eq, hsame]
      exact fun h' => h h'.symm
    have hne' : same lt k k' = false := by
      rw [Bool.eq_false_iff, ne_eq, hsame]
      exact h
    simp [hne, hne']

theorem assign_of_not_has (h : ¬ m.has k = true) : m.assign k v = m.insert k v := if_neg h

/-- Nothing is put in but the new entry. -/
theorem mem_insert {x : κ × β} (h : x ∈ (m.insert k v).entries) : x = (k, v) ∨ x ∈ m.entries := by
  by_cases hk : m.has k = true
  · rw [insert_of_has hk] at h
    exact .inr h
  · rw [entries_insert hk] at h
    exact mem_put.mp h

/-- Nothing is lost. -/
theorem mem_insert_of_mem {x : κ × β} (h : x ∈ m.entries) : x ∈ (m.insert k v).entries := by
  by_cases hk : m.has k = true
  · rwa [insert_of_has hk]
  · rw [entries_insert hk]
    exact mem_put.mpr (.inr h)

theorem has_insert_of_has (h : m.has k' = true) : (m.insert k v).has k' = true := by
  obtain ⟨x, hx, hsame⟩ := has_iff.mp h
  exact has_iff.mpr ⟨x, mem_insert_of_mem hx, hsame⟩

/-- A key that does not come before itself is in the map once it was inserted. -/
theorem has_insert_self (h : lt k k = false) : (m.insert k v).has k = true := by
  by_cases hk : m.has k = true
  · rwa [insert_of_has hk]
  · refine has_iff.mpr ⟨(k, v), ?_, by simp [same, h]⟩
    rw [entries_insert hk]
    exact mem_put.mpr (.inl rfl)

theorem has_of_has_insert (h : (m.insert k v).has k' = true) :
    m.has k' = true ∨ same lt k k' = true := by
  obtain ⟨x, hx, hsame⟩ := has_iff.mp h
  obtain rfl | hx := mem_insert hx
  · exact .inr hsame
  · exact .inl (has_iff.mpr ⟨x, hx, hsame⟩)

/-- A key after all others goes to the end. -/
theorem entries_insert_last (h : ∀ x ∈ m.entries, lt x.1 k = true) :
    (m.insert k v).entries = m.entries ++ [(k, v)] := by
  have hk : ¬ m.has k = true := by
    intro hk
    obtain ⟨x, hx, hsame⟩ := has_iff.mp hk
    simp [same, h x hx] at hsame
  rw [entries_insert hk, put, List.takeWhile_eq_self_iff.mpr h, List.dropWhile_eq_nil_iff.mpr h]

/-- Entries that are inserted in order stand as they were. -/
theorem entries_foldl_insert {l : List (κ × β)}
    (hl : (m.entries ++ l).Pairwise fun x y => lt x.1 y.1 = true) :
    (l.foldl (fun m x => m.insert x.1 x.2) m).entries = m.entries ++ l := by
  induction l generalizing m with
  | nil => exact (List.append_nil _).symm
  | cons x l ih =>
      have hlast : (m.insert x.1 x.2).entries = m.entries ++ [x] :=
        entries_insert_last fun y hy =>
          (List.pairwise_append.mp hl).2.2 y hy x List.mem_cons_self
      rw [List.foldl_cons, ih]
      · rw [hlast, List.append_assoc, List.singleton_append]
      · rwa [hlast, List.append_assoc, List.singleton_append]

theorem has_foldl_insert (hsame : ∀ {a b}, same lt a b = true ↔ a = b) {l : List (κ × β)} :
    (l.foldl (fun m x => m.insert x.1 x.2) m).has k = true ↔
      m.has k = true ∨ ∃ x ∈ l, x.1 = k := by
  induction l generalizing m with
  | nil => simp
  | cons x l ih =>
      have hinsert : (m.insert x.1 x.2).has k = true ↔ m.has k = true ∨ x.1 = k := by
        constructor
        · exact fun h => (has_of_has_insert h).imp_right hsame.mp
        · rintro (h | rfl)
          · exact has_insert_of_has h
          · refine has_insert_self ?_
            simpa [same] using (hsame (a := x.1) (b := x.1)).mpr rfl
      rw [List.foldl_cons, ih, hinsert]
      simp [or_assoc]

theorem foldl_insert_empty (m : OrdMap κ β lt) :
    m.entries.foldl (fun m x => m.insert x.1 x.2) empty = m :=
  OrdMap.ext (entries_foldl_insert (m := empty) m.sorted)

end

end OrdMap

end XLArig
