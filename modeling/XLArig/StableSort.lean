import XLArig.Sure

/-!
# XLArig.StableSort

Two ways to sort an array that keep what is equal in its order.

* `scatter` — a counting sort by a digit: how often each digit occurs is summed up, and the items
  go to their places from the last to the first;
* `insertFrom` — an insertion sort, which moves what is greater than the next item.

Both are stated for arrays that are in some order `R` already: what comes out is in the order of
the keys, and in the order `R` where keys are equal.  A place outside of an array is a fault.
-/

namespace XLArig

namespace StableSort

variable {ε α : Type} {κ : Type*} {K : Nat}

/-- An entry of an array. -/
def fetch (e : ε) (xs : List α) (i : Nat) : Except ε α :=
  match xs[i]? with
  | some x => .ok x
  | none => .error e

/-- An array with another entry. -/
def store (e : ε) (xs : List α) (i : Nat) (x : α) : Except ε (List α) :=
  if i < xs.length then .ok (xs.set i x) else .error e

theorem fetch_eq {e : ε} {xs : List α} {i : Nat} (h : i < xs.length) : fetch e xs i = .ok xs[i] := by
  rw [fetch, List.getElem?_eq_getElem h]

theorem store_eq {e : ε} {xs : List α} {i : Nat} {x : α} (h : i < xs.length) :
    store e xs i x = .ok (xs.set i x) := if_pos h

/-- The order of the keys, and `R` where they are equal. -/
def ByKey [LT κ] (key : α → κ) (R : α → α → Prop) (a b : α) : Prop :=
  key a < key b ∨ key a = key b ∧ R a b

/-! ## Counting -/

/-- How often each digit occurs among the first `n`. -/
def tally (digit : Nat → Fin K) : Nat → Fin K → UInt32
  | 0 => fun _ => 0
  | n + 1 => Function.update (tally digit n) (digit n) (tally digit n (digit n) + 1)

/-- The loop that turns the counts into the last places of the digits, and the sum so far. -/
def ends [NeZero K] (counters : Fin K → UInt32) : Nat → UInt32 × (Fin K → UInt32)
  | 0 => (counters 0, Function.update counters 0 (counters 0 - 1))
  | i + 1 =>
      let (prev, c) := ends counters i
      let cur := c (.ofNat K (i + 1)) + prev
      (cur, Function.update c (.ofNat K (i + 1)) (cur - 1))

/-- The loop that puts the items at their places, from the last of the first `n` down. -/
def scatter (e : ε) (item : Nat → Except ε (Fin K × α)) :
    (n : Nat) → (Fin K → UInt32) → List α → Except ε (List α)
  | 0, _, out => .ok out
  | n + 1, c, out => do
      let (d, x) ← item n
      let out ← store e out (c d).toNat x
      scatter e item n (Function.update c d (c d - 1)) out

/-! ### Places -/

section Places

variable (digit : Nat → Fin K) (N : Nat)

/-- How many of the first `n` have a digit. -/
def count (d : Fin K) (n : Nat) : Nat := (List.range n).countP (digit · = d)

/-- How many have a smaller one. -/
def below (d : Fin K) : Nat := (List.range N).countP (digit · < d)

/-- Where an item belongs. -/
def place (i : Nat) : Nat := below digit N (digit i) + count digit (digit i) i

variable {digit N} {d : Fin K} {i j n : Nat}

theorem count_succ (d : Fin K) (n : Nat) :
    count digit d (n + 1) = count digit d n + if digit n = d then 1 else 0 := by
  simp [count, List.range_succ, List.countP_append, List.countP_cons]

theorem count_mono (d : Fin K) {m : Nat} (h : m ≤ n) : count digit d m ≤ count digit d n := by
  induction h with
  | refl => exact le_rfl
  | step _ ih => exact ih.trans (by rw [count_succ]; omega)

/-- The items of a digit and of the smaller ones are the items below the next greater. -/
theorem below_add_count_le {d' : Fin K} (h : d < d') :
    below digit N d + count digit d N ≤ below digit N d' := by
  have hsplit : ∀ xs : List Nat, xs.countP (digit · < d) + xs.countP (digit · = d) ≤
      xs.countP (digit · < d') := by
    intro xs
    induction xs with
    | nil => simp
    | cons x xs ih =>
        simp only [List.countP_cons, decide_eq_true_eq]
        split_ifs <;> omega
  exact hsplit _

theorem below_add_count_le_length : below digit N d + count digit d N ≤ N := by
  have hsplit : ∀ xs : List Nat, xs.countP (digit · < d) + xs.countP (digit · = d) ≤ xs.length := by
    intro xs
    induction xs with
    | nil => simp
    | cons x xs ih =>
        simp only [List.countP_cons, decide_eq_true_eq, List.length_cons]
        split_ifs <;> omega
  simpa [below, count] using hsplit (List.range N)

theorem count_lt (hi : i < n) : count digit (digit i) i < count digit (digit i) n := by
  have hmono : count digit (digit i) (i + 1) ≤ count digit (digit i) n := count_mono _ hi
  rw [count_succ, if_pos rfl] at hmono
  omega

theorem place_lt (hi : i < N) : place digit N i < N := by
  have hcount : count digit (digit i) i < count digit (digit i) N := count_lt hi
  have hall : below digit N (digit i) + count digit (digit i) N ≤ N := below_add_count_le_length
  unfold place
  omega

/-- The places are in the order of the digits, and of the items where digits are equal. -/
theorem place_lt_place (hi : i < N) (h : digit i < digit j ∨ digit i = digit j ∧ i < j) :
    place digit N i < place digit N j := by
  unfold place
  obtain h | ⟨h, hij⟩ := h
  · have hcount : count digit (digit i) i < count digit (digit i) N := count_lt hi
    have hle : below digit N (digit i) + count digit (digit i) N ≤ below digit N (digit j) :=
      below_add_count_le h
    omega
  · have hcount : count digit (digit i) i < count digit (digit i) j := count_lt hij
    rw [← h]
    omega

theorem place_lt_place_iff (hi : i < N) (hj : j < N) :
    place digit N i < place digit N j ↔ digit i < digit j ∨ digit i = digit j ∧ i < j := by
  refine ⟨fun h => ?_, place_lt_place hi⟩
  by_contra hnot
  push Not at hnot
  obtain ⟨hle, himp⟩ := hnot
  obtain hlt | heq := lt_or_eq_of_le hle
  · have hback : place digit N j < place digit N i := place_lt_place hj (.inl hlt)
    omega
  · obtain hji | rfl := Nat.lt_or_eq_of_le (himp heq.symm)
    · have := place_lt_place hj (.inr ⟨heq, hji⟩)
      omega
    · exact absurd h (lt_irrefl _)

theorem place_injOn (hi : i < N) (hj : j < N) (h : place digit N i = place digit N j) : i = j := by
  have hij : ¬ (digit i < digit j ∨ digit i = digit j ∧ i < j) := fun hlt =>
    (place_lt_place hi hlt).ne h
  have hji : ¬ (digit j < digit i ∨ digit j = digit i ∧ j < i) := fun hlt =>
    (place_lt_place hj hlt).ne h.symm
  push Not at hij hji
  have hdigit : digit i = digit j := le_antisymm hji.1 hij.1
  have := hij.2 hdigit
  have := hji.2 hdigit.symm
  omega

/-- Each place is taken once. -/
theorem perm_places : ((List.range N).map (place digit N)).Perm (List.range N) := by
  have hnodup : ((List.range N).map (place digit N)).Nodup :=
    List.nodup_range.map_on fun i hi j hj h =>
      place_injOn (List.mem_range.mp hi) (List.mem_range.mp hj) h
  have hsub : (List.range N).map (place digit N) ⊆ List.range N := by
    intro p hp
    obtain ⟨i, hi, rfl⟩ := List.mem_map.mp hp
    exact List.mem_range.mpr (place_lt (List.mem_range.mp hi))
  exact (hnodup.subperm hsub).perm_of_length_le (by simp)

end Places

/-! ### The loops -/

section Loops

variable {digit : Nat → Fin K} {N n : Nat} {d : Fin K}

theorem tally_eq (d : Fin K) (n : Nat) : tally digit n d = .ofNat (count digit d n) := by
  induction n with
  | zero => rfl
  | succ n ih =>
      rw [tally, count_succ]
      by_cases h : digit n = d
      · subst h
        rw [Function.update_self, ih, if_pos rfl, UInt32.ofNat_add]
        rfl
      · rw [Function.update_of_ne (Ne.symm h), ih, if_neg h, Nat.add_zero]

theorem below_succ {d' : Fin K} (h : d'.val = d.val + 1) :
    below digit N d' = below digit N d + count digit d N := by
  have hsplit : ∀ xs : List Nat, xs.countP (digit · < d') =
      xs.countP (digit · < d) + xs.countP (digit · = d) := by
    intro xs
    induction xs with
    | nil => simp
    | cons x xs ih =>
        have hiff : digit x < d' ↔ digit x < d ∨ digit x = d := by
          rw [Fin.lt_def, Fin.lt_def, Fin.ext_iff, h]
          omega
        simp only [List.countP_cons, decide_eq_true_eq, ih, hiff]
        split_ifs <;> omega
  exact hsplit _

/-- After the sums, each digit has the last of its places; the next digits have their counts
still. -/
theorem ends_spec [NeZero K] {i : Nat} (hi : i < K) :
    (ends (tally digit N) i).1 =
        .ofNat (below digit N (.ofNat K i) + count digit (.ofNat K i) N) ∧
      ∀ d : Fin K, (ends (tally digit N) i).2 d =
        if d.val ≤ i then .ofNat (below digit N d + count digit d N) - 1 else tally digit N d := by
  induction i with
  | zero =>
      have hzero : below digit N 0 = 0 := by simp [below]
      refine ⟨by simp [ends, tally_eq, hzero], fun d => ?_⟩
      by_cases hd : d = 0
      · subst hd
        simp [ends, tally_eq, hzero]
      · have hne : ¬ d.val ≤ 0 := fun h => hd (Fin.ext (by simpa using h))
        simp [ends, Function.update_of_ne hd, hne]
  | succ i ih =>
      obtain ⟨hprev, hc⟩ := ih (by omega)
      have hval : (Fin.ofNat K (i + 1)).val = i + 1 := Nat.mod_eq_of_lt hi
      have hbelow : below digit N (.ofNat K (i + 1)) =
          below digit N (.ofNat K i) + count digit (.ofNat K i) N := below_succ
        (by rw [hval]; exact congrArg (· + 1) (Nat.mod_eq_of_lt (by omega)).symm)
      have hcur : (ends (tally digit N) (i + 1)).1 =
          .ofNat (below digit N (.ofNat K (i + 1)) + count digit (.ofNat K (i + 1)) N) := by
        simp only [ends, hprev, hc, hval]
        rw [if_neg (by omega), tally_eq, hbelow, UInt32.ofNat_add (_ + _), UInt32.add_comm]
      refine ⟨hcur, fun d => ?_⟩
      have hnext : (ends (tally digit N) (i + 1)).2 = Function.update (ends (tally digit N) i).2
          (.ofNat K (i + 1)) ((ends (tally digit N) (i + 1)).1 - 1) := rfl
      rw [hnext, hcur]
      by_cases hd : d = .ofNat K (i + 1)
      · subst hd
        rw [Function.update_self, if_pos (by omega)]
      · have hne : d.val ≠ i + 1 := fun h => hd (Fin.ext (h.trans hval.symm))
        rw [Function.update_of_ne hd, hc d]
        by_cases hle : d.val ≤ i
        · rw [if_pos hle, if_pos (by omega)]
        · rw [if_neg hle, if_neg (by omega)]

variable {e : ε} {item : Nat → Except ε (Fin K × α)} {x : Nat → α}

/-- The loop from the `n`-th item down leaves each of them at its place, and all other places
alone. -/
theorem scatter_spec (hN : N < 2 ^ 32) (hitem : ∀ i < N, item i = .ok (digit i, x i)) (hn : n ≤ N)
    {c : Fin K → UInt32} (hc : ∀ d, c d = .ofNat (below digit N d + count digit d n) - 1)
    {out : List α} (hout : out.length = N) :
    ∃ ys, scatter e item n c out = .ok ys ∧ ys.length = N ∧
      (∀ i < n, ys[place digit N i]? = some (x i)) ∧
      ∀ p, (∀ i < n, p ≠ place digit N i) → ys[p]? = out[p]? := by
  induction n generalizing c out with
  | zero => exact ⟨out, rfl, hout, fun i hi => absurd hi (Nat.not_lt_zero i), fun _ _ => rfl⟩
  | succ n ih =>
      have hplace : place digit N n < N := place_lt hn
      have hlast : (c (digit n)).toNat = place digit N n := by
        have hcount : below digit N (digit n) + count digit (digit n) (n + 1) =
            place digit N n + 1 := by
          rw [count_succ, if_pos rfl, place]
          omega
        rw [hc, hcount, UInt32.ofNat_add]
        simp only [UInt32.reduceOfNat, UInt32.add_sub_cancel, UInt32.toNat_ofNat']
        exact Nat.mod_eq_of_lt (by omega)
      have hc' : ∀ d, Function.update c (digit n) (c (digit n) - 1) d =
          .ofNat (below digit N d + count digit d n) - 1 := by
        intro d
        by_cases hd : d = digit n
        · subst hd
          rw [Function.update_self, hc, count_succ, if_pos rfl, ← Nat.add_assoc, UInt32.ofNat_add _ 1]
          simp
        · rw [Function.update_of_ne hd, hc, count_succ, if_neg (Ne.symm hd), Nat.add_zero]
      have hout' : (out.set (place digit N n) (x n)).length = N := by simpa using hout
      obtain ⟨ys, hys, hlen, hitems, hrest⟩ := ih (by omega) hc' hout'
      refine ⟨ys, ?_, hlen, fun i hi => ?_, fun p hp => ?_⟩
      · rw [scatter, hitem n hn]
        simp only [bind, Except.bind, hlast]
        rw [store_eq (by omega)]
        exact hys
      · obtain hi | rfl := Nat.lt_succ_iff_lt_or_eq.mp hi
        · exact hitems i hi
        · rw [hrest _ fun j hj h => hj.ne' (place_injOn hn (by omega) h)]
          exact List.getElem?_set_self (by omega)
      · rw [hrest p fun i hi => hp i (by omega)]
        exact List.getElem?_set_ne (hp n (Nat.lt_succ_self n)).symm

/-- **A counting sort is stable.**  Items in some order `R` come out in the order of their digits,
and in the order `R` where digits are equal. -/
theorem scatter_sorts [NeZero K] (hN : N < 2 ^ 32)
    (hitem : ∀ i < N, item i = .ok (digit i, x i)) {key : α → Fin K}
    (hkey : ∀ i < N, digit i = key (x i)) (R : α → α → Prop)
    (hR : ∀ i j, i < j → j < N → R (x i) (x j)) {out : List α} (hout : out.length = N) :
    ∃ ys, scatter e item N (ends (tally digit N) (K - 1)).2 out = .ok ys ∧
      ys.Perm ((List.range N).map x) ∧ ys.Pairwise (ByKey key R) := by
  have hK : K - 1 < K := Nat.sub_lt (Nat.pos_of_ne_zero (NeZero.ne K)) Nat.one_pos
  have hc : ∀ d, (ends (tally digit N) (K - 1)).2 d =
      .ofNat (below digit N d + count digit d N) - 1 := by
    intro d
    rw [(ends_spec hK).2 d, if_pos (by omega)]
  obtain ⟨ys, hys, hlen, hitems, -⟩ := scatter_spec (e := e) hN hitem le_rfl hc hout
  have hget : ∀ i < N, ∀ hp : place digit N i < ys.length, ys[place digit N i] = x i := by
    intro i hi hp
    have hsome := hitems i hi
    rw [List.getElem?_eq_getElem hp] at hsome
    exact Option.some.inj hsome
  have hperm : ((List.range N).map (place digit N)).Perm (List.range N) := perm_places
  refine ⟨ys, hys, ?_, ?_⟩
  · -- the items are what stands at their places
    have hmap : (List.range N).map x =
        ((List.range N).map (place digit N)).map fun p => ys.getD p (x 0) := by
      rw [List.map_map]
      refine List.map_congr_left fun i hi => ?_
      have hi : i < N := List.mem_range.mp hi
      rw [Function.comp_apply, List.getD_eq_getElem?_getD, hitems i hi, Option.getD_some]
    have hall : (List.range N).map (fun p => ys.getD p (x 0)) = ys := by
      refine List.ext_getElem (by simp [hlen]) fun p hp _ => ?_
      rw [List.getElem_map, List.getElem_range, List.getD_eq_getElem]
    have hplaces := hperm.map fun p => ys.getD p (x 0)
    rw [hall] at hplaces
    rw [hmap]
    exact hplaces.symm
  · rw [List.pairwise_iff_getElem]
    intro p q hp hq hpq
    have hsource : ∀ p < N, ∃ i < N, place digit N i = p := fun p hp => by
      obtain ⟨i, hi, h⟩ := List.mem_map.mp (hperm.mem_iff.mpr (List.mem_range.mpr hp))
      exact ⟨i, List.mem_range.mp hi, h⟩
    obtain ⟨i, hi, rfl⟩ := hsource p (hlen ▸ hp)
    obtain ⟨j, hj, rfl⟩ := hsource q (hlen ▸ hq)
    rw [hget i hi hp, hget j hj hq]
    obtain h | ⟨h, hij⟩ := (place_lt_place_iff hi hj).mp hpq
    · exact .inl (by rwa [hkey i hi, hkey j hj] at h)
    · exact .inr ⟨by rwa [hkey i hi, hkey j hj] at h, hR i j hij hj⟩

end Loops

/-! ## Insertion -/

section Insertion

variable (e : ε) (smaller : α → α → Except ε Bool)

/-- The loop that moves `prev`, which stands at `j`, and what is before it up by one place as long
as `t` is smaller, and puts `t` at the place that is free then. -/
def insertBack (t : α) : (j : Nat) → (prev : α) → List α → Except ε (List α)
  | 0, prev, xs => do
      let xs ← store e xs 1 prev
      store e xs 0 t
  | j + 1, prev, xs => do
      let xs ← store e xs (j + 2) prev
      let prev ← fetch e xs j
      if ← smaller t prev then insertBack t j prev xs else store e xs (j + 1) t

/-- The loop over the next `n` items, `prev` being the last of those that are sorted. -/
def insertFrom : (n : Nat) → (j : Nat) → (prev : α) → List α → Except ε (List α)
  | 0, _, _, xs => .ok xs
  | n + 1, j, prev, xs => do
      let t ← fetch e xs (j + 1)
      if ← smaller t prev then
        let xs ← insertBack e smaller t j prev xs
        insertFrom n (j + 1) prev xs
      else
        insertFrom n (j + 1) t xs

variable {e smaller}

theorem fetch_append {xs ys : List α} {x : α} {i : Nat} (h : i = xs.length) :
    fetch e (xs ++ x :: ys) i = .ok x := by
  subst h
  rw [fetch_eq (by simp)]
  simp

theorem store_append {xs ys : List α} {x y : α} {i : Nat} (h : i = xs.length) :
    store e (xs ++ x :: ys) i y = .ok (xs ++ y :: ys) := by
  subst h
  rw [store_eq (by simp)]
  simp

variable [LinearOrder κ] {key : α → κ} {P : α → Prop} {R : α → α → Prop} {t prev x : α}
  {A C : List α}

/-- What is moved is greater than the item, and what stands right before it is not. -/
theorem insertBack_spec
    (hsmaller : ∀ a b, P a → P b → smaller a b = .ok (decide (key a < key b)))
    (ht : P t) (hA : ∀ a ∈ A, P a) (hprev : key t < key prev) :
    ∃ L M, A ++ [prev] = L ++ M ∧ (∀ m ∈ M, key t < key m) ∧ M ≠ [] ∧
      (∀ l ∈ L.getLast?, key l ≤ key t) ∧
      insertBack e smaller t A.length prev (A ++ prev :: x :: C) = .ok (L ++ t :: (M ++ C)) := by
  induction A using List.reverseRecOn generalizing prev x C with
  | nil =>
      refine ⟨[], [prev], rfl, by simpa using hprev, by simp, by simp, ?_⟩
      simp [insertBack, store, bind, Except.bind]
  | append_singleton A p ih =>
      have hmoved : store e (A ++ [p] ++ prev :: x :: C) (A.length + 2) prev =
          .ok (A ++ p :: prev :: prev :: C) := by
        have h : store e ((A ++ [p, prev]) ++ x :: C) (A.length + 2) prev =
            .ok ((A ++ [p, prev]) ++ prev :: C) := store_append (by simp)
        simpa using h
      have hfetch : fetch e (A ++ p :: prev :: prev :: C) A.length = .ok p := fetch_append rfl
      have hstep : insertBack e smaller t (A.length + 1) prev (A ++ [p] ++ prev :: x :: C) =
          if key t < key p then insertBack e smaller t A.length p (A ++ p :: prev :: prev :: C)
          else .ok (A ++ p :: t :: prev :: C) := by
        have hput : store e (A ++ p :: prev :: prev :: C) (A.length + 1) t =
            .ok (A ++ p :: t :: prev :: C) := by
          have h : store e ((A ++ [p]) ++ prev :: prev :: C) (A.length + 1) t =
              .ok ((A ++ [p]) ++ t :: prev :: C) := store_append (by simp)
          simpa using h
        simp only [insertBack, hmoved, hfetch, hput, bind, Except.bind,
          hsmaller t p ht (hA p (by simp)), decide_eq_true_eq]
      rw [List.length_append, List.length_singleton, hstep]
      by_cases hp : key t < key p
      · obtain ⟨L, M, hLM, hM, hne, hL, hback⟩ :=
          ih (x := prev) (C := prev :: C) (fun a ha => hA a (by simp [ha])) hp
        refine ⟨L, M ++ [prev], by rw [hLM, List.append_assoc], ?_, by simp, hL, ?_⟩
        · intro m hm
          obtain hm | hm := List.mem_append.mp hm
          · exact hM m hm
          · exact (List.mem_singleton.mp hm) ▸ hprev
        · rw [if_pos hp, hback]
          simp
      · refine ⟨A ++ [p], [prev], rfl, by simpa using hprev, by simp, ?_, ?_⟩
        · simpa using hp
        · rw [if_neg hp]
          simp

/-- Among items in the order of their keys, those before one that is not greater are not. -/
theorem key_le_of_getLast {L : List α} (hL : L.Pairwise (ByKey key R))
    (hlast : ∀ l ∈ L.getLast?, key l ≤ key t) : ∀ l ∈ L, key l ≤ key t := by
  obtain rfl | ⟨L, l, rfl⟩ := L.eq_nil_or_concat'
  · simp
  · have hl : key l ≤ key t := by simpa using hlast
    intro a ha
    obtain ha | ha := List.mem_append.mp ha
    · obtain h | ⟨h, -⟩ := (List.pairwise_append.mp hL).2.2 a ha l (by simp)
      · exact h.le.trans hl
      · exact h.le.trans hl
    · exact (List.mem_singleton.mp ha) ▸ hl

/-- **An insertion sort is stable.**  The items that are sorted stay so with each of the next ones,
and those keep the order `R` in which they are. -/
theorem insertFrom_sorts
    (hsmaller : ∀ a b, P a → P b → smaller a b = .ok (decide (key a < key b)))
    (hA : (A ++ [prev]).Pairwise (ByKey key R)) (hC : C.Pairwise R)
    (hR : ∀ a ∈ A ++ [prev], ∀ c ∈ C, R a c) (hP : ∀ a ∈ A ++ prev :: C, P a) :
    ∃ ys, insertFrom e smaller C.length A.length prev (A ++ prev :: C) = .ok ys ∧
      ys.Perm (A ++ prev :: C) ∧ ys.Pairwise (ByKey key R) := by
  induction C generalizing A prev with
  | nil => exact ⟨_, rfl, .refl _, hA⟩
  | cons t C ih =>
      have hfetch : fetch e (A ++ prev :: t :: C) (A.length + 1) = .ok t := by
        have h : fetch e ((A ++ [prev]) ++ t :: C) (A.length + 1) = .ok t :=
          fetch_append (by simp)
        simpa using h
      have hCt := List.pairwise_cons.mp hC
      have hRt : ∀ a ∈ A ++ [prev], R a t := fun a ha => hR a ha t (by simp)
      have hRC : ∀ a ∈ A ++ [prev], ∀ c ∈ C, R a c := fun a ha c hc => hR a ha c (by simp [hc])
      by_cases h : key t < key prev
      · obtain ⟨L, M, hLM, hM, hne, hL, hback⟩ := insertBack_spec (e := e) (x := t) (A := A)
          (C := C) hsmaller (hP t (by simp)) (fun a ha => hP a (by simp [ha])) h
        have hstep : insertFrom e smaller (t :: C).length A.length prev (A ++ prev :: t :: C) =
            insertFrom e smaller C.length (A.length + 1) prev (L ++ t :: (M ++ C)) := by
          simp only [List.length_cons, insertFrom, hfetch, hback, bind, Except.bind, h,
            hsmaller t prev (hP t (by simp)) (hP prev (by simp)), decide_true, if_true]
        -- what is greater ends with the item that was the last
        obtain ⟨M, rfl⟩ : ∃ M', M = M' ++ [prev] := by
          obtain rfl | ⟨M', m, rfl⟩ := M.eq_nil_or_concat'
          · exact absurd rfl hne
          · rw [← List.append_assoc] at hLM
            have hm := List.append_inj' hLM rfl
            simp only [List.cons.injEq, and_true] at hm
            exact ⟨M', by rw [hm.2]⟩
        have hLA := List.pairwise_append.mp (hLM ▸ hA)
        have hle := key_le_of_getLast hLA.1 hL
        have hmem : ∀ a, a ∈ L ++ t :: M ++ [prev] ↔ a = t ∨ a ∈ A ++ [prev] := by
          intro a
          rw [hLM]
          simp only [List.mem_append, List.mem_cons]
          tauto
        have hsorted : (L ++ t :: M ++ [prev]).Pairwise (ByKey key R) := by
          rw [List.append_assoc, List.cons_append]
          refine List.pairwise_append.mpr ⟨hLA.1, List.pairwise_cons.mpr
            ⟨fun m hm => .inl (hM m hm), hLA.2.1⟩, fun l hl m hm => ?_⟩
          obtain rfl | hm := List.mem_cons.mp hm
          · obtain hlt | heq := (hle l hl).lt_or_eq
            · exact .inl hlt
            · exact .inr ⟨heq, hRt l (by rw [hLM]; simp [hl])⟩
          · exact hLA.2.2 l hl m hm
        have hlength : (L ++ t :: M).length = A.length + 1 := by
          have hlen := congrArg List.length hLM
          simp only [List.length_append, List.length_cons] at hlen ⊢
          omega
        have hcell : L ++ t :: (M ++ [prev] ++ C) = L ++ t :: M ++ prev :: C := by simp
        obtain ⟨ys, hys, hperm, hpair⟩ := ih hsorted hCt.2
          (fun a ha c hc => by
            obtain rfl | ha := (hmem a).mp ha
            · exact hCt.1 c hc
            · exact hRC a ha c hc)
          (fun a ha => hP a (by
            have hin : a ∈ L ++ t :: M ++ [prev] ∨ a ∈ C := by
              simp only [List.mem_append, List.mem_cons, List.not_mem_nil] at ha ⊢
              tauto
            obtain ha | ha := hin
            · obtain rfl | ha := (hmem a).mp ha
              · simp
              · have ha := List.mem_append.mp ha
                simp only [List.mem_singleton] at ha
                simp only [List.mem_append, List.mem_cons]
                tauto
            · simp [ha]))
        refine ⟨ys, ?_, hperm.trans ?_, hpair⟩
        · rw [hstep, hcell, ← hlength]
          exact hys
        · have hmove : (L ++ t :: M ++ prev :: C).Perm (t :: (L ++ (M ++ [prev]) ++ C)) := by
            simp
          refine hmove.trans ?_
          rw [← hLM]
          have hback : (A ++ [prev] ++ t :: C).Perm (t :: (A ++ [prev] ++ C)) := List.perm_middle
          simpa using hback.symm
      · have hstep : insertFrom e smaller (t :: C).length A.length prev (A ++ prev :: t :: C) =
            insertFrom e smaller C.length (A.length + 1) t (A ++ [prev] ++ t :: C) := by
          simp only [List.length_cons, insertFrom, hfetch, bind, Except.bind, h,
            hsmaller t prev (hP t (by simp)) (hP prev (by simp)), decide_false,
            Bool.false_eq_true, if_false, List.append_assoc, List.singleton_append]
        have hle := key_le_of_getLast (t := t) hA (by simpa using h)
        have hsorted : (A ++ [prev] ++ [t]).Pairwise (ByKey key R) := by
          refine List.pairwise_append.mpr ⟨hA, by simp, fun a ha c hc => ?_⟩
          rw [List.mem_singleton.mp hc]
          obtain hlt | heq := (hle a ha).lt_or_eq
          · exact .inl hlt
          · exact .inr ⟨heq, hRt a ha⟩
        obtain ⟨ys, hys, hperm, hpair⟩ := ih hsorted hCt.2
          (fun a ha c hc => by
            obtain ha | ha := List.mem_append.mp ha
            · exact hRC a ha c hc
            · exact (List.mem_singleton.mp ha) ▸ hCt.1 c hc)
          (by simpa using hP)
        refine ⟨ys, ?_, by simpa using hperm, hpair⟩
        rw [hstep]
        simpa using hys

end Insertion

end StableSort

end XLArig
