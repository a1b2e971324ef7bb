import XLArig.Machine
import XLArig.OrdMap

/-!
# XLArig.MemPool

`base/net/tools/MemPool.h`: the pool of chunks from which `NetBuffer` takes the buffers of all
connections.

The storage is a map from `0, 1, ..` to arrays of `INIT_SIZE` chunks.  The nodes of a
`std::map` do not move, so an array is its address; where a new one lies is up to the
allocator, which gives memory that is not in use.

* `Lent.Inv` — what every call keeps: a pointer in use is the address of the chunk whose index
  is kept for it, and the free indexes are the others;
* `lent_sound` — the chunks that are lent out lie apart inside the storage, and stay there.
-/

namespace XLArig

/-- Ranges of `k` bytes at two addresses that do not meet. -/
def Apart (k p q : Nat) : Prop := p + k ≤ q ∨ q + k ≤ p

theorem Apart.symm {k p q : Nat} (h : Apart k p q) : Apart k q p := Or.symm h

instance (k p q : Nat) : Decidable (Apart k p q) := inferInstanceAs (Decidable (_ ∨ _))

/-- The order of pointers in `m_used`. -/
def ptrLt (p q : Nat) : Bool := decide (p < q)

instance : IsTrans Nat fun p q => ptrLt p q = true :=
  ⟨fun p q r hpq hqr => by simp only [ptrLt, decide_eq_true_eq] at *; omega⟩

theorem same_ptrLt {p q : Nat} : OrdMap.same ptrLt p q = true ↔ p = q := by
  simp only [OrdMap.same, ptrLt, Bool.and_eq_true, Bool.not_eq_true', decide_eq_false_iff_not]
  omega

/-- `MemPool<CHUNK_SIZE, INIT_SIZE>`; `data` has the addresses of the arrays by their keys. -/
structure MemPool (chunkSize initSize : Nat) where
  used : OrdMap Nat Nat ptrLt
  data : List Nat
  free : Finset Nat

namespace MemPool

variable {c n : Nat}

def new : MemPool c n := ⟨.empty, [], ∅⟩

def freeSize (pool : MemPool c n) : Nat := pool.free.card * c

def size (pool : MemPool c n) : Nat := pool.data.length * c * n

/-- A new array at `base`, all of whose chunks are free. -/
def resize (pool : MemPool c n) (base : Nat) : MemPool c n :=
  let index := pool.data.length
  { pool with
    data := pool.data ++ [base]
    free := (List.range n).foldl (fun free i => insert (index * n + i) free) pool.free }

/-- The pool that a chunk is taken from. -/
def grown (pool : MemPool c n) (base : Nat) : MemPool c n :=
  if pool.free = ∅ then pool.resize base else pool

/-- The free chunk of the smallest index.  There is no such call where `begin` has nothing to
point at, or where `m_data[r]` would make an array. -/
def allocate (pool : MemPool c n) (base : Nat) : Option (Nat × MemPool c n) :=
  let pool := pool.grown base
  if h : pool.free.Nonempty then
    let i := pool.free.min' h
    let r := i / n
    pool.data[r]?.map fun array =>
      let ptr := array + (i - r * n) * c
      (ptr, { pool with used := pool.used.insert ptr i, free := pool.free.erase i })
  else none

/-- There is no such call where the assertion fails. -/
def deallocate (pool : MemPool c n) (ptr : Nat) : Option (MemPool c n) :=
  if ptr = 0 then some pool
  else (pool.used.find? ptr).map fun i =>
    { pool with free := insert i pool.free, used := pool.used.erase ptr }

/-! ## Chunks -/

variable {pool : MemPool c n} {base p q i j : Nat}

/-- The address of the chunk with an index. -/
def chunk (pool : MemPool c n) (i : Nat) : Option Nat := pool.data[i / n]?.map (· + i % n * c)

theorem chunk_eq_some :
    pool.chunk i = some p ↔ ∃ b, pool.data[i / n]? = some b ∧ b + i % n * c = p :=
  Option.map_eq_some_iff

theorem chunk_inside (hn : 0 < n) (h : pool.chunk i = some p) :
    ∃ b ∈ pool.data, b ≤ p ∧ p + c ≤ b + c * n := by
  obtain ⟨b, hb, rfl⟩ := chunk_eq_some.mp h
  have hlast : (i % n + 1) * c ≤ n * c := Nat.mul_le_mul_right c (Nat.mod_lt i hn)
  rw [Nat.add_mul, Nat.one_mul, Nat.mul_comm n c] at hlast
  exact ⟨b, List.mem_of_getElem? hb, by omega, by omega⟩

theorem chunk_lt (hn : 0 < n) (h : pool.chunk i = some p) : i < pool.data.length * n := by
  obtain ⟨b, hb, -⟩ := chunk_eq_some.mp h
  exact (Nat.div_lt_iff_lt_mul hn).mp (List.getElem?_eq_some_iff.mp hb).1

theorem exists_chunk (hn : 0 < n) (h : i < pool.data.length * n) : ∃ p, pool.chunk i = some p := by
  have hr : i / n < pool.data.length := (Nat.div_lt_iff_lt_mul hn).mpr h
  exact ⟨_, chunk_eq_some.mpr ⟨_, List.getElem?_eq_getElem hr, rfl⟩⟩

/-- Chunks lie apart: in one array by their places in it, else with their arrays. -/
theorem chunk_apart (hn : 0 < n) (hdata : pool.data.Pairwise (Apart (c * n)))
    (hp : pool.chunk i = some p) (hq : pool.chunk j = some q) (hij : i ≠ j) : Apart c p q := by
  obtain ⟨a, ha, rfl⟩ := chunk_eq_some.mp hp
  obtain ⟨b, hb, rfl⟩ := chunk_eq_some.mp hq
  have hplace : ∀ i, i % n * c + c ≤ c * n := by
    intro i
    rw [← Nat.succ_mul, Nat.mul_comm c n]
    exact Nat.mul_le_mul_right c (Nat.mod_lt i hn)
  by_cases hdiv : i / n = j / n
  · have hmod : i % n ≠ j % n := by
      intro hmod
      rw [← Nat.div_add_mod i n, ← Nat.div_add_mod j n, hdiv, hmod] at hij
      exact hij rfl
    obtain rfl : a = b := by rw [hdiv, hb] at ha; exact (Option.some.inj ha).symm
    rcases Nat.lt_or_gt_of_ne hmod with hlt | hlt
    · have := Nat.mul_le_mul_right c (Nat.succ_le_of_lt hlt)
      rw [Nat.succ_mul] at this
      exact .inl (by omega)
    · have := Nat.mul_le_mul_right c (Nat.succ_le_of_lt hlt)
      rw [Nat.succ_mul] at this
      exact .inr (by omega)
  · obtain ⟨hi, rfl⟩ := List.getElem?_eq_some_iff.mp ha
    obtain ⟨hj, rfl⟩ := List.getElem?_eq_some_iff.mp hb
    have harrays : Apart (c * n) pool.data[i / n] pool.data[j / n] := by
      rcases Nat.lt_or_gt_of_ne hdiv with hlt | hlt
      · exact List.pairwise_iff_getElem.mp hdata _ _ hi hj hlt
      · exact (List.pairwise_iff_getElem.mp hdata _ _ hj hi hlt).symm
    have := hplace i
    have := hplace j
    rcases harrays with h | h
    · exact .inl (by omega)
    · exact .inr (by omega)

/-! ## Growth -/

@[simp] theorem used_resize : (pool.resize base).used = pool.used := rfl

@[simp] theorem data_resize : (pool.resize base).data = pool.data ++ [base] := rfl

theorem mem_foldl_insert {index : Nat} {l : List Nat} {s : Finset Nat} :
    i ∈ l.foldl (fun free k => insert (index * n + k) free) s ↔
      i ∈ s ∨ ∃ k ∈ l, i = index * n + k := by
  induction l generalizing s with
  | nil => simp
  | cons k l ih => simp [ih, or_assoc, or_left_comm]

theorem mem_free_resize :
    i ∈ (pool.resize base).free ↔
      i ∈ pool.free ∨ pool.data.length * n ≤ i ∧ i < (pool.data.length + 1) * n := by
  simp only [resize, mem_foldl_insert, List.mem_range, Nat.add_mul, Nat.one_mul]
  refine or_congr_right ⟨?_, fun h => ⟨i - pool.data.length * n, by omega, by omega⟩⟩
  rintro ⟨k, hk, rfl⟩
  omega

/-- Growth moves no chunk. -/
theorem chunk_resize (h : pool.chunk i = some p) : (pool.resize base).chunk i = some p := by
  obtain ⟨b, hb, rfl⟩ := chunk_eq_some.mp h
  have hlt := (List.getElem?_eq_some_iff.mp hb).1
  exact chunk_eq_some.mpr ⟨b, by rw [data_resize, List.getElem?_append_left hlt, hb], rfl⟩

end MemPool

/-! ## Callers -/

/-- A pool and the pointers that its callers have: what `allocate` returned and was not given
back. -/
structure Lent (c n : Nat) where
  pool : MemPool c n
  live : List Nat

namespace Lent

variable {c n : Nat}

/-- A call; `base` is where the allocator puts an array if the pool needs one. -/
inductive Event
  | allocate (base : Nat)
  | deallocate (ptr : Nat)
  deriving DecidableEq, Repr

/-- Memory that the allocator can give for an array: it lies in the address space, apart from
the other arrays. -/
def Fresh (pool : MemPool c n) (base : Nat) : Prop :=
  0 < base ∧ base + c * n ≤ 2 ^ 64 ∧ ∀ b ∈ pool.data, Apart (c * n) b base

instance (pool : MemPool c n) (base : Nat) : Decidable (Fresh pool base) :=
  inferInstanceAs (Decidable (_ ∧ _ ∧ _))

def step (s : Lent c n) : Event → Option (Lent c n)
  | .allocate base =>
      if s.pool.free = ∅ → Fresh s.pool base then
        (s.pool.allocate base).map fun r => { pool := r.2, live := r.1 :: s.live }
      else none
  | .deallocate ptr =>
      if ptr ∈ s.live then
        (s.pool.deallocate ptr).map fun pool => { pool, live := s.live.erase ptr }
      else none

/-- The calls on a new pool. -/
def machine : Machine (Lent c n) Event where
  init s := s = ⟨.new, []⟩
  step := step

structure Inv (s : Lent c n) : Prop where
  arrays : s.pool.data.Pairwise (Apart (c * n))
  pos : ∀ b ∈ s.pool.data, 0 < b
  addressed : ∀ {p i}, (p, i) ∈ s.pool.used.entries → s.pool.chunk i = some p
  used : ∀ p, p ∈ s.live ↔ ∃ i, (p, i) ∈ s.pool.used.entries
  nodup : s.live.Nodup
  free : ∀ i, i ∈ s.pool.free ↔
    i < s.pool.data.length * n ∧ ∀ p, (p, i) ∉ s.pool.used.entries

variable {s s' : Lent c n} {base : Nat}

theorem inv_new : Inv (⟨.new, []⟩ : Lent c n) where
  arrays := .nil
  pos := by simp [MemPool.new]
  addressed := by simp [MemPool.new, OrdMap.empty]
  used := by simp [MemPool.new, OrdMap.empty]
  nodup := .nil
  free := by simp [MemPool.new]

/-- A pointer in use is not null. -/
theorem Inv.ne_zero (h : Inv s) (hn : 0 < n) {p : Nat} (hp : p ∈ s.live) : p ≠ 0 := by
  obtain ⟨i, hi⟩ := (h.used p).mp hp
  obtain ⟨b, hb, hle, -⟩ := MemPool.chunk_inside hn (h.addressed hi)
  have := h.pos b hb
  omega

/-- Pointers with one index are one. -/
theorem Inv.injective (h : Inv s) {p q i : Nat} (hp : (p, i) ∈ s.pool.used.entries)
    (hq : (q, i) ∈ s.pool.used.entries) : p = q :=
  Option.some.inj ((h.addressed hp).symm.trans (h.addressed hq))

theorem Inv.resize (h : Inv s) (hn : 0 < n) (hfresh : Fresh s.pool base) :
    Inv { s with pool := s.pool.resize base } where
  arrays := List.pairwise_append.mpr
    ⟨h.arrays, List.pairwise_singleton _ _, by simpa using hfresh.2.2⟩
  pos := by simpa [or_imp, forall_and] using ⟨h.pos, hfresh.1⟩
  addressed hi := MemPool.chunk_resize (h.addressed hi)
  used := h.used
  nodup := h.nodup
  free i := by
    simp only [MemPool.mem_free_resize, MemPool.used_resize, MemPool.data_resize,
      List.length_append, List.length_singleton, h.free]
    have hsucc : (s.pool.data.length + 1) * n = s.pool.data.length * n + n := Nat.succ_mul _ _
    constructor
    · rintro (⟨hlt, hfree⟩ | ⟨hle, hlt⟩)
      · exact ⟨by omega, hfree⟩
      · refine ⟨hlt, fun p hp => ?_⟩
        have := MemPool.chunk_lt hn (h.addressed hp)
        omega
    · rintro ⟨hlt, hfree⟩
      by_cases hold : i < s.pool.data.length * n
      · exact .inl ⟨hold, hfree⟩
      · exact .inr ⟨by omega, hlt⟩

/-- Whether the pool grows or not, a chunk is free then. -/
theorem Inv.grown (h : Inv s) (hn : 0 < n) (hfresh : s.pool.free = ∅ → Fresh s.pool base) :
    Inv { s with pool := s.pool.grown base } ∧ (s.pool.grown base).free.Nonempty := by
  unfold MemPool.grown
  split
  · refine ⟨h.resize hn (hfresh ‹_›), s.pool.data.length * n, MemPool.mem_free_resize.mpr (.inr ?_)⟩
    rw [Nat.succ_mul]
    omega
  · exact ⟨h, Finset.nonempty_iff_ne_empty.mpr ‹_›⟩

/-- What `allocate` does: the chunk of a free index goes to the caller. -/
theorem Inv.allocate (h : Inv s) (hn : 0 < n) (hfresh : s.pool.free = ∅ → Fresh s.pool base) :
    ∃ p i, i ∈ (s.pool.grown base).free ∧ (s.pool.grown base).chunk i = some p ∧
      s.pool.allocate base = some (p, { s.pool.grown base with
        used := (s.pool.grown base).used.insert p i, free := (s.pool.grown base).free.erase i }) := by
  obtain ⟨hgrown, hfree⟩ := h.grown hn hfresh
  have hmem := (s.pool.grown base).free.min'_mem hfree
  obtain ⟨p, hp⟩ := MemPool.exists_chunk hn ((hgrown.free _).mp hmem).1
  obtain ⟨b, hb, hplace⟩ := MemPool.chunk_eq_some.mp hp
  refine ⟨p, _, hmem, hp, ?_⟩
  have hmod : ∀ i, i - i / n * n = i % n := fun i => by rw [Nat.mod_eq_sub_div_mul]
  simp only [MemPool.allocate, dif_pos hfree, hb, Option.map_some, hmod, hplace]

theorem Inv.lend (h : Inv s) (hc : 0 < c) (hn : 0 < n) {p i : Nat} (hi : i ∈ s.pool.free)
    (hp : s.pool.chunk i = some p) :
    Inv (⟨{ s.pool with used := s.pool.used.insert p i, free := s.pool.free.erase i },
      p :: s.live⟩ : Lent c n) := by
  have hunused : ∀ j, (p, j) ∉ s.pool.used.entries := by
    intro j hj
    have hij : i ≠ j := by
      rintro rfl
      exact ((h.free i).mp hi).2 p hj
    have := MemPool.chunk_apart hn h.arrays hp (h.addressed hj) hij
    simp only [Apart] at this
    omega
  have hnew : ¬ s.pool.used.has p = true := by
    intro hhas
    obtain ⟨⟨q, j⟩, hj, hsame⟩ := OrdMap.has_iff.mp hhas
    obtain rfl := same_ptrLt.mp hsame
    exact hunused j hj
  have hentries : ∀ x, x ∈ (s.pool.used.insert p i).entries ↔
      x = (p, i) ∨ x ∈ s.pool.used.entries := by
    intro x
    rw [OrdMap.entries_insert hnew, OrdMap.mem_put]
  have hlive : ∀ q, q ∈ s.live ↔ ∃ j, (q, j) ∈ s.pool.used.entries := h.used
  refine
    { arrays := h.arrays, pos := h.pos, addressed := ?_, used := ?_, nodup := ?_, free := ?_ }
  · intro q j hq
    rcases (hentries _).mp hq with heq | hq
    · obtain ⟨rfl, rfl⟩ := Prod.mk.inj heq
      exact hp
    · exact h.addressed hq
  · intro q
    simp [hentries, hlive, exists_or]
  · refine List.nodup_cons.mpr ⟨fun hmem => ?_, h.nodup⟩
    obtain ⟨j, hj⟩ := (hlive p).mp hmem
    exact hunused j hj
  · intro j
    simp only [Finset.mem_erase, h.free, hentries, Prod.mk.injEq, not_or, forall_and]
    constructor
    · rintro ⟨hne, hlt, hfree⟩
      exact ⟨hlt, fun _ heq => hne heq.2, hfree⟩
    · rintro ⟨hlt, hne, hfree⟩
      exact ⟨fun heq => hne p ⟨rfl, heq⟩, hlt, hfree⟩

theorem Inv.giveBack (h : Inv s) (hn : 0 < n) {p i : Nat}
    (hp : (p, i) ∈ s.pool.used.entries) :
    Inv (⟨{ s.pool with free := insert i s.pool.free, used := s.pool.used.erase p },
      s.live.erase p⟩ : Lent c n) := by
  have hentries : ∀ q j, (q, j) ∈ (s.pool.used.erase p).entries ↔
      (q, j) ∈ s.pool.used.entries ∧ q ≠ p := by
    intro q j
    rw [OrdMap.mem_erase, ← Bool.not_eq_true, same_ptrLt]
  refine
    { arrays := h.arrays, pos := h.pos, addressed := ?_, used := ?_, nodup := h.nodup.erase _,
      free := ?_ }
  · intro q j hq
    exact h.addressed ((hentries q j).mp hq).1
  · intro q
    simp only [hentries, exists_and_right]
    rw [h.nodup.mem_erase_iff, h.used, and_comm]
  · intro j
    simp only [Finset.mem_insert, h.free, hentries]
    constructor
    · rintro (rfl | ⟨hlt, hfree⟩)
      · exact ⟨MemPool.chunk_lt hn (h.addressed hp), fun q hq => hq.2 (h.injective hq.1 hp)⟩
      · exact ⟨hlt, fun q hq => hfree q hq.1⟩
    · rintro ⟨hlt, hfree⟩
      refine or_iff_not_imp_left.mpr fun hne => ⟨hlt, fun q hq => ?_⟩
      refine hfree q ⟨hq, ?_⟩
      rintro rfl
      have hj := (OrdMap.find?_eq_some same_ptrLt).mpr hq
      exact hne (Option.some.inj (hj.symm.trans ((OrdMap.find?_eq_some same_ptrLt).mpr hp)))

/-- What `deallocate` does: the chunk of a pointer that was handed out is free again. -/
theorem Inv.deallocate (h : Inv s) (hn : 0 < n) {p : Nat} (hp : p ∈ s.live) :
    ∃ i, (p, i) ∈ s.pool.used.entries ∧ s.pool.deallocate p =
      some { s.pool with free := insert i s.pool.free, used := s.pool.used.erase p } := by
  obtain ⟨i, hi⟩ := (h.used p).mp hp
  refine ⟨i, hi, ?_⟩
  rw [MemPool.deallocate, if_neg (h.ne_zero hn hp), (OrdMap.find?_eq_some same_ptrLt).mpr hi]
  rfl

theorem Inv.step (h : Inv s) (hc : 0 < c) (hn : 0 < n) {e : Event} (hs : s.step e = some s') :
    Inv s' ∧ ∀ i p, s.pool.chunk i = some p → s'.pool.chunk i = some p := by
  cases e with
  | allocate base =>
      simp only [Lent.step] at hs
      split at hs
      · obtain ⟨p, i, hi, hp, hallocate⟩ := h.allocate hn ‹_›
        rw [hallocate, Option.map_some] at hs
        obtain rfl := Option.some.inj hs
        refine ⟨(h.grown hn ‹_›).1.lend hc hn hi hp, fun j q hq => ?_⟩
        change (s.pool.grown base).chunk j = some q
        unfold MemPool.grown
        split
        · exact MemPool.chunk_resize hq
        · exact hq
      · contradiction
  | deallocate ptr =>
      simp only [Lent.step] at hs
      split at hs
      · obtain ⟨i, hi, hdeallocate⟩ := h.deallocate hn ‹_›
        rw [hdeallocate, Option.map_some] at hs
        obtain rfl := Option.some.inj hs
        exact ⟨h.giveBack hn hi, fun _ _ hq => hq⟩
      · contradiction

theorem Inv.run (h : Inv s) (hc : 0 < c) (hn : 0 < n) {es : List Event}
    (hr : machine.run s es = some s') {i p : Nat} (hp : s.pool.chunk i = some p) :
    s'.pool.chunk i = some p := by
  induction es generalizing s with
  | nil =>
      obtain rfl := Option.some.inj hr
      exact hp
  | cons e es ih =>
      obtain ⟨t, ht, hr⟩ := Option.bind_eq_some_iff.mp hr
      obtain ⟨hinv, hkeep⟩ := h.step hc hn ht
      exact ih hinv hr (hkeep i p hp)

/-! ## What is lent out -/

/-- The indexes of the chunks that are in use. -/
def indexes (s : Lent c n) : List Nat := s.live.filterMap s.pool.used.find?

/-- What the callers rely on.  The pointers they have lie apart inside the arrays; the indexes
kept for these pointers and the free ones are all indexes, each once; a chunk stays where it is
whatever is called; and once all was given back all of the storage is free. -/
structure Sound (s : Lent c n) : Prop where
  apart : s.live.Pairwise (Apart c)
  inside : ∀ p ∈ s.live, ∃ b ∈ s.pool.data, b ≤ p ∧ p + c ≤ b + c * n
  indexed : ∀ p ∈ s.live, ∃ i, s.pool.used.find? p = some i ∧ s.pool.chunk i = some p
  nodup : s.indexes.Nodup
  disjoint : Disjoint s.indexes.toFinset s.pool.free
  covers : s.indexes.toFinset ∪ s.pool.free = Finset.range (s.pool.data.length * n)
  stays : ∀ es s', machine.run s es = some s' →
    ∀ i p, s.pool.chunk i = some p → s'.pool.chunk i = some p
  released : s.live = [] → s.pool.freeSize = s.pool.size
  allocates : ∀ base, (s.pool.free = ∅ → Fresh s.pool base) →
    ∃ s', s.step (.allocate base) = some s'
  deallocates : ∀ p ∈ s.live, ∃ s', s.step (.deallocate p) = some s'

theorem Inv.mem_indexes (h : Inv s) {i : Nat} :
    i ∈ s.indexes ↔ ∃ p, (p, i) ∈ s.pool.used.entries := by
  simp only [indexes, List.mem_filterMap, OrdMap.find?_eq_some same_ptrLt]
  exact ⟨fun ⟨p, _, hp⟩ => ⟨p, hp⟩, fun ⟨p, hp⟩ => ⟨p, (h.used p).mpr ⟨i, hp⟩, hp⟩⟩

theorem Inv.mem_indexes_or_free (h : Inv s) (hn : 0 < n) (i : Nat) :
    i ∈ s.indexes ∨ i ∈ s.pool.free ↔ i < s.pool.data.length * n := by
  rw [h.mem_indexes, h.free]
  constructor
  · rintro (⟨p, hp⟩ | ⟨hlt, -⟩)
    · exact MemPool.chunk_lt hn (h.addressed hp)
    · exact hlt
  · intro hlt
    by_cases hused : ∃ p, (p, i) ∈ s.pool.used.entries
    · exact .inl hused
    · exact .inr ⟨hlt, not_exists.mp hused⟩

theorem Inv.sound (h : Inv s) (hc : 0 < c) (hn : 0 < n) : Sound s := by
  have hcovers : s.indexes.toFinset ∪ s.pool.free = Finset.range (s.pool.data.length * n) := by
    ext i
    simp only [Finset.mem_union, List.mem_toFinset, Finset.mem_range, h.mem_indexes_or_free hn]
  refine
    { apart := ?_, inside := ?_, indexed := ?_, nodup := ?_, disjoint := ?_, covers := hcovers,
      stays := fun es s' hr i p hp => h.run hc hn hr hp, released := ?_, allocates := ?_,
      deallocates := ?_ }
  · refine h.nodup.imp_of_mem fun hp hq hne => ?_
    obtain ⟨i, hi⟩ := (h.used _).mp hp
    obtain ⟨j, hj⟩ := (h.used _).mp hq
    refine MemPool.chunk_apart hn h.arrays (h.addressed hi) (h.addressed hj) ?_
    rintro rfl
    exact hne (h.injective hi hj)
  · intro p hp
    obtain ⟨i, hi⟩ := (h.used p).mp hp
    exact MemPool.chunk_inside hn (h.addressed hi)
  · intro p hp
    obtain ⟨i, hi⟩ := (h.used p).mp hp
    exact ⟨i, (OrdMap.find?_eq_some same_ptrLt).mpr hi, h.addressed hi⟩
  · refine h.nodup.filterMap fun p q i hp hq => ?_
    exact h.injective ((OrdMap.find?_eq_some same_ptrLt).mp hp)
      ((OrdMap.find?_eq_some same_ptrLt).mp hq)
  · refine Finset.disjoint_left.mpr fun i hi hfree => ?_
    obtain ⟨p, hp⟩ := h.mem_indexes.mp (List.mem_toFinset.mp hi)
    exact ((h.free i).mp hfree).2 p hp
  · intro hlive
    have hfree : s.pool.free = Finset.range (s.pool.data.length * n) := by
      simpa [indexes, hlive] using hcovers
    simp [MemPool.freeSize, MemPool.size, hfree, Nat.mul_right_comm]
  · intro base hfresh
    obtain ⟨p, i, -, -, hallocate⟩ := h.allocate hn hfresh
    exact ⟨_, by simp only [Lent.step, if_pos hfresh, hallocate, Option.map_some]; rfl⟩
  · intro p hp
    obtain ⟨i, -, hdeallocate⟩ := h.deallocate hn hp
    exact ⟨_, by simp only [Lent.step, if_pos hp, hdeallocate, Option.map_some]; rfl⟩

theorem inv_of_reachable (hc : 0 < c) (hn : 0 < n) (h : machine.Reachable s) : Inv s := by
  refine h.invariant ?_ fun _ _ _ hs _ ht => (hs.step hc hn ht).1
  rintro _ rfl
  exact inv_new

/-- Whatever sizes the pool has, and however its callers take and give back chunks. -/
theorem lent_sound (hc : 0 < c) (hn : 0 < n) (h : machine.Reachable s) : Sound s :=
  (inv_of_reachable hc hn h).sound hc hn

theorem lent_sound_grown :
    ∃ s : Lent 2 2, (s.live = [64, 16, 18] ∧ s.pool.data = [16, 64]) ∧ Sound s := by
  have hrun : (machine.run (⟨.new, []⟩ : Lent 2 2)
      [.allocate 16, .allocate 0, .deallocate 16, .allocate 0, .allocate 64]).any
        (fun s => decide (s.live = [64, 16, 18] ∧ s.pool.data = [16, 64])) = true := by
    decide +kernel
  obtain ⟨s, hs, hp⟩ := Machine.ReachableIf.exists_of_run rfl (Machine.meets_true _ _) hrun
  exact ⟨s, of_decide_eq_true hp, lent_sound (by decide) (by decide) hs⟩

end Lent

/-! ## NetBuffer -/

namespace NetBuffer

/-- `XMRIG_NET_BUFFER_CHUNK_SIZE` and `XMRIG_NET_BUFFER_INIT_CHUNKS`. -/
abbrev Pool : Type := MemPool 65536 4

/-- `pool` is null until a buffer is asked for. -/
def getPool (pool : Option Pool) : Pool := pool.getD .new

/-- `destroy`; there is no such call where the assertion fails. -/
def destroy : Option Pool → Option (Option Pool)
  | none => some none
  | some pool => if pool.freeSize = pool.size then some none else none

/-- `onAlloc` gives libuv a chunk and its length. -/
def onAlloc (pool : Option Pool) (base : Nat) : Option ((Nat × Nat) × Option Pool) :=
  ((getPool pool).allocate base).map fun r => ((r.1, 65536), some r.2)

def release (pool : Option Pool) (buf : Nat) : Option (Option Pool) :=
  if buf = 0 then some pool else ((getPool pool).deallocate buf).map some

/-- A read gets the buffer that `allocate` lends out. -/
theorem onAlloc_lends {s : Lent 65536 4} {base : Nat} (hfresh : s.pool.free = ∅ →
    Lent.Fresh s.pool base) :
    (onAlloc (some s.pool) base).map (fun r => (r.1.1, r.2)) =
      (s.step (.allocate base)).map fun s' => (s'.live.headD 0, some s'.pool) := by
  rw [Lent.step, if_pos hfresh, onAlloc, Option.map_map, Option.map_map]
  rfl

/-- A buffer in use can be released, and that gives it back. -/
theorem release_live {s : Lent 65536 4} (h : Lent.machine.Reachable s) {buf : Nat}
    (hbuf : buf ∈ s.live) :
    ∃ s', s.step (.deallocate buf) = some s' ∧ release (some s.pool) buf = some (some s'.pool) := by
  have hinv := Lent.inv_of_reachable (by decide) (by decide) h
  obtain ⟨i, -, hdeallocate⟩ := hinv.deallocate (by decide) hbuf
  refine ⟨_, by rw [Lent.step, if_pos hbuf, hdeallocate, Option.map_some], ?_⟩
  rw [release, if_neg (hinv.ne_zero (by decide) hbuf), getPool, Option.getD_some, hdeallocate]
  rfl

/-- The buffers can be destroyed once all were released. -/
theorem destroy_released {s : Lent 65536 4} (h : Lent.machine.Reachable s)
    (hlive : s.live = []) : destroy (some s.pool) = some none := by
  have hsound := (Lent.inv_of_reachable (by decide) (by decide) h).sound (by decide) (by decide)
  rw [destroy, if_pos (hsound.released hlive)]

end NetBuffer

end XLArig
