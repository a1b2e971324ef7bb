import XLArig.CString

/-!
# XLArig.RandomX.Items

`RxDataset::init`, where the items of a dataset are shared among threads.

A thread is the list of the calls of `randomx_init_dataset` that it makes; a call stores the
items of a range, one after the other, and the threads do so in any order.

* `fill_eq` — what stores in any order leave is known from which items they store;
* `init_covers` — the threads store all items, and no others.
-/

namespace XLArig

namespace DatasetInit

/-- A call of `randomx_init_dataset`. -/
structure Call where
  startItem : Nat
  itemCount : Nat
  deriving DecidableEq, Repr

/-- The items that `cache->datasetInit` stores, in its order. -/
def Call.items (c : Call) : List Nat := (List.range c.itemCount).map (c.startItem + ·)

/-- `init_dataset_wrapper`, with `avx2` for `Cpu::info()->hasAVX2()`. -/
def initDatasetWrapper (avx2 : Bool) (startItem itemCount : Nat) : List Call :=
  if avx2 && itemCount % 5 ≠ 0 then
    [⟨startItem, itemCount - itemCount % 5⟩, ⟨(startItem + itemCount + 2 ^ 64 - 5) % 2 ^ 64, 5⟩]
  else [⟨startItem, itemCount⟩]

/-- Where the range of the `i`-th of `numThreads` threads begins. -/
def boundary (datasetItemCount numThreads i : Nat) : Nat :=
  datasetItemCount * i % 2 ^ 64 / numThreads % 2 ^ 32

/-- The threads of `RxDataset::init`. -/
def init (avx2 : Bool) (datasetItemCount numThreads : Nat) : List (List Call) :=
  if numThreads > 1 then
    (List.range numThreads).map fun i =>
      let a := boundary datasetItemCount numThreads i
      let b := boundary datasetItemCount numThreads (i + 1)
      initDatasetWrapper avx2 a ((b + 2 ^ 32 - a) % 2 ^ 32)
  else [initDatasetWrapper avx2 0 datasetItemCount]

/-- The items that the threads store. -/
def stores (threads : List (List Call)) : List Nat := threads.flatten.flatMap Call.items

/-- The dataset after stores in some order; the item of a number is always the same. -/
def fill {α : Type} (item : Nat → α) (dataset : Nat → α) (order : List Nat) : Nat → α :=
  order.foldl (fun dataset k => Function.update dataset k (item k)) dataset

/-! ## Stores -/

variable {α : Type} {item dataset : Nat → α} {order : List Nat} {avx2 : Bool} {n t i k : Nat}

/-- An item that is stored once or more often has its value, and the others are left alone. -/
theorem fill_eq : fill item dataset order k = if k ∈ order then item k else dataset k := by
  induction order generalizing dataset with
  | nil => rfl
  | cons j order ih =>
      rw [fill, List.foldl_cons, ← fill, ih]
      by_cases hk : k = j
      · subst hk
        simp
      · simp [hk]

@[simp] theorem mem_items {c : Call} :
    k ∈ c.items ↔ c.startItem ≤ k ∧ k < c.startItem + c.itemCount := by
  simp only [Call.items, List.mem_map, List.mem_range]
  exact ⟨fun ⟨j, hj, hk⟩ => by omega, fun h => ⟨k - c.startItem, by omega, by omega⟩⟩

/-! ## Ranges -/

/-- The calls of one thread stay in its range and store all of it; with AVX2 each of them
stores some fives. -/
theorem wrapper_calls (avx2 : Bool) {start count : Nat} (hbound : start + count < 2 ^ 64) (hcount : 5 ≤ count) :
    (∀ c ∈ initDatasetWrapper avx2 start count,
      start ≤ c.startItem ∧ c.startItem + c.itemCount ≤ start + count ∧ 0 < c.itemCount ∧
        (avx2 = true → c.itemCount % 5 = 0)) ∧
    (∀ k, start ≤ k → k < start + count →
      ∃ c ∈ initDatasetWrapper avx2 start count, k ∈ c.items) := by
  have htail : (start + count + 2 ^ 64 - 5) % 2 ^ 64 = start + count - 5 := by omega
  unfold initDatasetWrapper
  rw [htail]
  split
  · constructor
    · refine List.forall_mem_cons.mpr ⟨?_, List.forall_mem_singleton.mpr ?_⟩
      · exact ⟨le_rfl, by dsimp only; omega, by dsimp only; omega, fun _ => by dsimp only; omega⟩
      · exact ⟨by dsimp only; omega, by dsimp only; omega, Nat.succ_pos 4, fun _ => Nat.mod_self 5⟩
    · intro k hstart hend
      by_cases hk : k < start + (count - count % 5)
      · exact ⟨_, List.mem_cons_self, mem_items.mpr ⟨hstart, hk⟩⟩
      · -- the last five begin before what the first call leaves
        have hlast : start + count - 5 ≤ k ∧ k < start + count - 5 + 5 := by omega
        exact ⟨_, List.mem_cons_of_mem _ List.mem_cons_self, mem_items.mpr hlast⟩
  · next hfives =>
      simp only [Bool.and_eq_true, decide_eq_true_eq, not_and, not_not] at hfives
      constructor
      · refine List.forall_mem_singleton.mpr ⟨le_rfl, le_rfl, ?_, hfives⟩
        exact Nat.lt_of_lt_of_le (Nat.succ_pos 4) hcount
      · intro k hstart hend
        exact ⟨_, List.mem_cons_self, mem_items.mpr ⟨hstart, hend⟩⟩

theorem boundary_le (hi : i ≤ t) : n * i / t ≤ n :=
  Nat.div_le_of_le_mul (by rw [Nat.mul_comm t n]; exact Nat.mul_le_mul_left n hi)

/-- Neither product nor quotient wraps. -/
theorem boundary_eq (hn : n < 2 ^ 32) (hprod : n * t < 2 ^ 64) (hi : i ≤ t) :
    boundary n t i = n * i / t := by
  have hmul : n * i ≤ n * t := Nat.mul_le_mul_left n hi
  have hdiv : n * i / t ≤ n := boundary_le hi
  have hlong : n * i % 2 ^ 64 = n * i := Nat.mod_eq_of_lt (by omega)
  rw [boundary, hlong, Nat.mod_eq_of_lt (by omega)]

/-- A range has the items of five at least. -/
theorem boundary_step (ht : 0 < t) (h : 5 * t ≤ n) : n * i / t + 5 ≤ n * (i + 1) / t := by
  rw [Nat.mul_succ, ← Nat.add_mul_div_right _ _ ht]
  exact Nat.div_le_div_right (by omega)

theorem boundary_mono {j : Nat} (h : i ≤ j) : n * i / t ≤ n * j / t :=
  Nat.div_le_div_right (Nat.mul_le_mul_left n h)

/-- Between two values of a sequence there is a step of it over any number. -/
theorem exists_step {a : Nat → Nat} {m : Nat} (h0 : a 0 ≤ k) (hm : k < a m) :
    ∃ i < m, a i ≤ k ∧ k < a (i + 1) := by
  induction m with
  | zero => omega
  | succ m ih =>
      by_cases hk : k < a m
      · obtain ⟨i, hi, hrange⟩ := ih hk
        exact ⟨i, by omega, hrange⟩
      · exact ⟨m, Nat.lt_succ_self m, by omega, hm⟩

/-- Thread `i` has the items from `n * i / t` to `n * (i + 1) / t`. -/
theorem init_eq (hn : n < 2 ^ 32) (hprod : n * t < 2 ^ 64) (ht : 0 < t) :
    init avx2 n t = (List.range t).map fun i =>
      initDatasetWrapper avx2 (n * i / t) (n * (i + 1) / t - n * i / t) := by
  unfold init
  split
  · refine List.map_congr_left fun i hi => ?_
    have hi : i + 1 ≤ t := List.mem_range.mp hi
    have hle : n * i / t ≤ n * (i + 1) / t := boundary_mono (Nat.le_succ i)
    have hlast : n * (i + 1) / t ≤ n := boundary_le hi
    dsimp only
    rw [boundary_eq hn hprod (by omega), boundary_eq hn hprod hi]
    generalize n * i / t = a at *
    generalize n * (i + 1) / t = b at *
    congr 1
    omega
  · obtain rfl : t = 1 := by omega
    simp

/-! ## All threads -/

/-- What the calls of all threads are to be: inside the dataset, over all of it, each of fives
with AVX2, no item in two threads, and whatever the order of their stores, with the dataset that
a single thread makes. -/
structure Covers (avx2 : Bool) (n t : Nat) : Prop where
  inside : ∀ thread ∈ init avx2 n t, ∀ c ∈ thread,
    c.startItem < n ∧ c.itemCount ≤ n ∧ c.startItem + c.itemCount ≤ n
  covers : ∀ k < n, ∃ thread ∈ init avx2 n t, ∃ c ∈ thread, k ∈ c.items
  fives : avx2 = true → ∀ thread ∈ init avx2 n t, ∀ c ∈ thread,
    0 < c.itemCount ∧ c.itemCount % 5 = 0
  apart : (init avx2 n t).Pairwise fun a b => ∀ c ∈ a, ∀ d ∈ b, ∀ k, k ∈ c.items → k ∉ d.items
  same : ∀ {α : Type} (item dataset : Nat → α) (order order' : List Nat),
    order.Perm (stores (init avx2 n t)) → order'.Perm (stores (init avx2 n 1)) →
      fill item dataset order = fill item dataset order' ∧
        ∀ k < n, fill item dataset order k = item k

theorem mem_stores {threads : List (List Call)} :
    k ∈ stores threads ↔ ∃ thread ∈ threads, ∃ c ∈ thread, k ∈ c.items := by
  simp only [stores, List.mem_flatMap, List.mem_flatten]
  exact ⟨fun ⟨c, ⟨thread, hthread, hc⟩, hk⟩ => ⟨thread, hthread, c, hc, hk⟩,
    fun ⟨thread, hthread, c, hc, hk⟩ => ⟨c, ⟨thread, hthread, hc⟩, hk⟩⟩

/-- A thread in terms of its range. -/
theorem thread_calls (avx2 : Bool) (hn : n < 2 ^ 32) (ht : 0 < t) (h : 5 * t ≤ n) (hi : i < t) :
    let thread := initDatasetWrapper avx2 (n * i / t) (n * (i + 1) / t - n * i / t)
    n * (i + 1) / t ≤ n ∧
      (∀ c ∈ thread, n * i / t ≤ c.startItem ∧ c.startItem + c.itemCount ≤ n * (i + 1) / t ∧
        0 < c.itemCount ∧ (avx2 = true → c.itemCount % 5 = 0)) ∧
      ∀ k, n * i / t ≤ k → k < n * (i + 1) / t → ∃ c ∈ thread, k ∈ c.items := by
  have hlast : n * (i + 1) / t ≤ n := boundary_le hi
  have hstep : n * i / t + 5 ≤ n * (i + 1) / t := boundary_step ht h
  generalize n * i / t = a at *
  generalize n * (i + 1) / t = b at *
  obtain ⟨hcalls, hcovers⟩ :=
    wrapper_calls avx2 (by omega : a + (b - a) < 2 ^ 64) (by omega)
  rw [Nat.add_sub_cancel' (by omega)] at hcalls hcovers
  exact ⟨hlast, hcalls, hcovers⟩

theorem mem_init (hn : n < 2 ^ 32) (hprod : n * t < 2 ^ 64) (ht : 0 < t) {thread : List Call} :
    thread ∈ init avx2 n t ↔
      ∃ i < t, initDatasetWrapper avx2 (n * i / t) (n * (i + 1) / t - n * i / t) = thread := by
  rw [init_eq hn hprod ht, List.mem_map]
  simp only [List.mem_range]

section

variable (hn : n < 2 ^ 32) (hprod : n * t < 2 ^ 64) (ht : 0 < t) (h : 5 * t ≤ n)
include hn hprod ht h

theorem covers_init : ∀ k < n, ∃ thread ∈ init avx2 n t, ∃ c ∈ thread, k ∈ c.items := by
  intro k hk
  have hlast : k < n * t / t := by rwa [Nat.mul_div_cancel n ht]
  obtain ⟨i, hi, hlow, hhigh⟩ := exists_step (a := fun i => n * i / t) (by simp) hlast
  obtain ⟨-, -, hcovers⟩ := thread_calls avx2 hn ht h hi
  exact ⟨_, (mem_init hn hprod ht).mpr ⟨i, hi, rfl⟩, hcovers k hlow hhigh⟩

theorem mem_stores_init : k ∈ stores (init avx2 n t) ↔ k < n := by
  rw [mem_stores]
  constructor
  · rintro ⟨thread, hthread, c, hc, hk⟩
    obtain ⟨i, hi, rfl⟩ := (mem_init hn hprod ht).mp hthread
    obtain ⟨hlast, hcalls, -⟩ := thread_calls avx2 hn ht h hi
    have hend := (hcalls c hc).2.1
    have := mem_items.mp hk
    omega
  · exact covers_init hn hprod ht h k

theorem apart_init :
    (init avx2 n t).Pairwise fun a b => ∀ c ∈ a, ∀ d ∈ b, ∀ k, k ∈ c.items → k ∉ d.items := by
  rw [init_eq hn hprod ht, List.pairwise_map]
  refine List.pairwise_lt_range.imp_of_mem fun {i j} hi hj hij c hc d hd k hk hk' => ?_
  obtain ⟨-, hcalls, -⟩ := thread_calls avx2 hn ht h (List.mem_range.mp hi)
  obtain ⟨-, hcalls', -⟩ := thread_calls avx2 hn ht h (List.mem_range.mp hj)
  have hend := (hcalls c hc).2.1
  have hstart := (hcalls' d hd).1
  have hle : n * (i + 1) / t ≤ n * j / t := boundary_mono hij
  have := mem_items.mp hk
  have := mem_items.mp hk'
  omega

end

/-- However many threads share the items. -/
theorem init_covers (hn : n < 2 ^ 32) (ht : 0 < t) (h : 5 * t ≤ n) (hprod : n * t < 2 ^ 64) :
    Covers avx2 n t where
  inside thread hthread c hc := by
    obtain ⟨i, hi, rfl⟩ := (mem_init hn hprod ht).mp hthread
    obtain ⟨hlast, hcalls, -⟩ := thread_calls avx2 hn ht h hi
    have hend := (hcalls c hc).2.1
    have hpos := (hcalls c hc).2.2.1
    omega
  covers := covers_init hn hprod ht h
  fives havx2 thread hthread c hc := by
    obtain ⟨i, hi, rfl⟩ := (mem_init hn hprod ht).mp hthread
    obtain ⟨-, hcalls, -⟩ := thread_calls avx2 hn ht h hi
    exact ⟨(hcalls c hc).2.2.1, (hcalls c hc).2.2.2 havx2⟩
  apart := apart_init hn hprod ht h
  same item dataset order order' horder horder' := by
    have hone : ∀ k, k ∈ stores (init avx2 n 1) ↔ k < n := fun k =>
      mem_stores_init hn (by omega) Nat.one_pos (by omega)
    have hmem : ∀ k, k ∈ order ↔ k < n := fun k =>
      horder.mem_iff.trans (mem_stores_init hn hprod ht h)
    constructor
    · funext k
      simp only [fill_eq, hmem, horder'.mem_iff, hone]
    · intro k hk
      rw [fill_eq, if_pos ((hmem k).mpr hk)]

theorem init_covers_three : Covers true 17 3 :=
  init_covers (by decide) (by decide) (by decide) (by decide)

end DatasetInit

end XLArig
