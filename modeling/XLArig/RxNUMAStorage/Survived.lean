import XLArig.RxNUMAStorage

/-!
# XLArig.RxNUMAStorage.Survived

Which partial allocations `RxNUMAStorage::init` survives.

Whether it does is seen from the shapes of the datasets, which `initDatasets` leaves as they
are: what memory and which cache there is for each node.  `Inv` is what the shapes are like at
all times, `Sound` when a storage that is allocated comes out as it should.
-/

namespace XLArig

/-! ## Shapes -/

/-- What stays of a dataset when it is initialised; the cache is given as whether it could be
created. -/
structure Shape where
  memory : Bool
  oneGbPages : Bool
  cache : Option Bool

/-- The shapes of the datasets by their nodes. -/
abbrev Shapes := UInt32 → Option Shape

namespace Shapes

variable {m : Shapes} {allocated : Bool} {front : UInt32}

/-- Datasets have memory, but for the one that stands alone in slow mode.  Those of 1 GB pages
have a cache, and the others none, but for the first node if there are no such pages. -/
structure Inv (m : Shapes) (allocated : Bool) (front : UInt32) : Prop where
  memory : ∀ {n x}, m n = some x → x.memory = false →
    allocated = true ∧ ∀ {k y}, m k = some y → k = n
  own : ∀ {n x}, m n = some x → x.oneGbPages = true → x.cache ≠ none
  shared : ∀ {n x}, m n = some x → x.oneGbPages = false → x.cache ≠ none →
    allocated = true ∧ n = front ∧ x.cache = some true ∧
      ∀ {k y}, m k = some y → y.oneGbPages = false
  cached : allocated = true → ∃ n x, m n = some x ∧ x.cache ≠ none

/-- The first node has a dataset, and the last of those of 1 GB pages, if any, its cache. -/
structure Sound (m : Shapes) (front : UInt32) : Prop where
  front : (m front).isSome = true
  last : ∀ n x, m n = some x → x.oneGbPages = true →
    (∀ k y, m k = some y → y.oneGbPages = true → k ≤ n) → x.cache = some true

/-- A storage that is not allocated has datasets as the threads made them. -/
theorem inv_false_iff : m.Inv false front ↔
    ∀ n x, m n = some x → x.memory = true ∧ (x.oneGbPages = true ↔ x.cache ≠ none) := by
  constructor
  · intro hm n x hx
    refine ⟨?_, hm.own hx, fun hcache => ?_⟩
    · by_contra hno
      exact Bool.false_ne_true (hm.memory hx (Bool.eq_false_of_not_eq_true hno)).1
    · by_contra hno
      exact Bool.false_ne_true (hm.shared hx (Bool.eq_false_of_not_eq_true hno) hcache).1
  · intro h
    constructor
    · intro n x hx hno
      exact absurd (hno.symm.trans (h n x hx).1) Bool.false_ne_true
    · intro n x hx
      exact (h n x hx).2.mp
    · intro n x hx hno hcache
      exact absurd (hno.symm.trans ((h n x hx).2.mpr hcache)) Bool.false_ne_true
    · nofun

/-- Slow mode. -/
theorem inv_slow : Inv (fun n => if front = n then some ⟨false, false, some true⟩ else none) true
    front := by
  constructor
  · intro n x hx _
    refine ⟨rfl, fun {k y} hy => ?_⟩
    rw [Option.ite_none_right_eq_some] at hx hy
    exact hy.1.symm.trans hx.1
  · intro n x hx hpages
    obtain ⟨-, rfl⟩ := Option.ite_none_right_eq_some.mp hx |>.imp_right Option.some.inj
    contradiction
  · intro n x hx _ _
    obtain ⟨rfl, rfl⟩ := Option.ite_none_right_eq_some.mp hx |>.imp_right Option.some.inj
    refine ⟨rfl, rfl, rfl, fun {k y} hy => ?_⟩
    obtain ⟨-, rfl⟩ := Option.ite_none_right_eq_some.mp hy |>.imp_right Option.some.inj
    rfl
  · intro _
    exact ⟨front, _, if_pos rfl, Option.some_ne_none _⟩

/-- The first node is given the cache where no dataset has one. -/
theorem Inv.share (hm : Inv m false front) (hno : ∀ n x, m n = some x → x.oneGbPages = false) :
    Inv (fun n => if front = n then some ⟨true, false, some true⟩ else m n) true front := by
  rw [inv_false_iff] at hm
  have hnew : ∀ {n x}, (if front = n then some ⟨true, false, some true⟩ else m n) = some x →
      x.memory = true ∧ x.oneGbPages = false ∧
        (x.cache ≠ none → front = n ∧ x.cache = some true) := by
    intro n x hx
    split at hx
    · next hn =>
        obtain rfl := Option.some.inj hx
        exact ⟨rfl, rfl, fun _ => ⟨hn, rfl⟩⟩
    · refine ⟨(hm n x hx).1, hno n x hx, fun hcache => ?_⟩
      exact absurd ((hno n x hx).symm.trans ((hm n x hx).2.mpr hcache)) Bool.false_ne_true
  constructor
  · intro n x hx hmemory
    exact absurd (hmemory.symm.trans (hnew hx).1) Bool.false_ne_true
  · intro n x hx hpages
    exact absurd ((hnew hx).2.1.symm.trans hpages) Bool.false_ne_true
  · intro n x hx _ hcache
    obtain ⟨hn, hready⟩ := (hnew hx).2.2 hcache
    exact ⟨rfl, hn.symm, hready, fun hy => (hnew hy).2.1⟩
  · intro _
    exact ⟨front, _, if_pos rfl, Option.some_ne_none _⟩

/-- Datasets of 1 GB pages have their caches. -/
theorem Inv.ownCaches (hm : Inv m false front) (h : ∃ n x, m n = some x ∧ x.oneGbPages = true) :
    Inv m true front := by
  rw [inv_false_iff] at hm
  constructor
  · intro n x hx hmemory
    exact absurd (hmemory.symm.trans (hm n x hx).1) Bool.false_ne_true
  · intro n x hx
    exact (hm n x hx).2.mp
  · intro n x hx hno hcache
    exact absurd (hno.symm.trans ((hm n x hx).2.mpr hcache)) Bool.false_ne_true
  · intro _
    obtain ⟨n, x, hx, hpages⟩ := h
    exact ⟨n, x, hx, (hm n x hx).2.mp hpages⟩

/-- Without pages of 1 GB it is only the first node that matters. -/
theorem sound_iff_front (hno : ∀ n x, m n = some x → x.oneGbPages = false) :
    m.Sound front ↔ (m front).isSome = true := by
  constructor
  · exact Sound.front
  · intro h
    refine ⟨h, fun n x hx hpages _ => ?_⟩
    exact absurd ((hno n x hx).symm.trans hpages) Bool.false_ne_true

/-- The last dataset that has a cache is that of the first node, or the last of 1 GB pages. -/
theorem Inv.last_iff (hm : Inv m allocated front) {id : UInt32} {x : Shape} (hid : m id = some x)
    (hcache : x.cache ≠ none) (hlast : ∀ k y, m k = some y → y.cache ≠ none → k ≤ id) :
    x.cache = some true ↔ ∀ n x, m n = some x → x.oneGbPages = true →
      (∀ k y, m k = some y → y.oneGbPages = true → k ≤ n) → x.cache = some true := by
  cases hpages : x.oneGbPages with
  | false =>
      obtain ⟨-, -, hready, hnone⟩ := hm.shared hid hpages hcache
      refine iff_of_true hready fun n x hn hx _ => ?_
      exact absurd ((hnone hn).symm.trans hx) Bool.false_ne_true
  | true =>
      have hown : ∀ {k y}, m k = some y → y.cache ≠ none → y.oneGbPages = true := by
        intro k y hk hy
        by_contra hno
        rw [Bool.not_eq_true] at hno
        have hnone := (hm.shared hk hno hy).2.2.2 hid
        exact Bool.false_ne_true (hnone.symm.trans hpages)
      constructor
      · intro hready n y hn hy hmax
        have hle : id ≤ n := hmax id x hid hpages
        have hge : n ≤ id := hlast n y hn (hm.own hn hy)
        obtain rfl := UInt32.le_antisymm hge hle
        obtain rfl := Option.some.inj (hid.symm.trans hn)
        exact hready
      · intro h
        exact h id x hid hpages fun k y hk hy => hlast k y hk (hm.own hk hy)

end Shapes

section

variable [RandomX]

namespace NUMADataset

variable {d : NUMADataset} {applied : Option Configuration} {seed : List UInt8}

def shape (d : NUMADataset) : Shape := ⟨d.memory, d.oneGbPages, d.cache.map RxCache.allocated⟩

theorem shape_init : (d.init applied seed).shape = d.shape := by
  unfold init
  split
  · rfl
  · next cache hcache =>
      split
      · rfl
      · have hkeeps := (cache.init_keeps applied seed).1
        dsimp only
        split <;> simp [shape, hcache, hkeeps]

theorem shape_setRaw (raw : Option RandomX.Dataset) : (d.setRaw raw).shape = d.shape := by
  unfold setRaw
  split <;> rfl

theorem isSome_cache_iff : d.cache.isSome = true ↔ d.shape.cache ≠ none := by
  simp [shape, Option.isSome_iff_ne_none]

/-- A dataset is filled just when its cache could be created. -/
theorem filled_init (h : d.shape.cache = some true) :
    (d.init applied seed).Filled applied seed := by
  obtain ⟨cache, hcache, halloc⟩ := Option.map_eq_some_iff.mp h
  have hkeeps := cache.init_keeps applied seed
  unfold init Filled
  rw [hcache]
  dsimp only
  rw [halloc, Bool.not_true, if_neg Bool.false_ne_true]
  refine ⟨cache.init applied seed, ?_⟩
  cases hmemory : d.memory with
  | true => exact ⟨rfl, hkeeps.1.trans halloc, hkeeps.2, fun _ => ⟨rfl, rfl⟩⟩
  | false =>
      refine ⟨rfl, hkeeps.1.trans halloc, hkeeps.2, fun h => ?_⟩
      simp at h

theorem Filled.cache (h : d.Filled applied seed) : d.shape.cache = some true := by
  obtain ⟨cache, hcache, halloc, -⟩ := h
  simp [shape, hcache, halloc]

end NUMADataset

namespace RxNUMAStorage

/-- The shapes once all threads are done. -/
def keptShapes (s : RxNUMAStorage) (c : Call) : Shapes := fun n =>
  (s.kept c n).map NUMADataset.shape

/-- Nothing at all could be allocated for a node, or the cache is needed and could not, or the
first node has a dataset and the primary one can be filled. -/
def Survives (s : RxNUMAStorage) (c : Call) : Prop :=
  (∀ n, s.kept c n = none) ∨
    (s.allocated = false ∧ c.cache = false ∧
      ∀ n x, s.keptShapes c n = some x → x.oneGbPages = false) ∨
    (s.keptShapes c).Sound s.front

variable {s s' : RxNUMAStorage} {c : Call}

def shapes (s : RxNUMAStorage) : Shapes := fun n => (s.datasets.find? n).map NUMADataset.shape

theorem shapes_of_find? {n : UInt32} {d : NUMADataset} (h : s.datasets.find? n = some d) :
    s.shapes n = some d.shape := congrArg (Option.map NUMADataset.shape) h

theorem find?_of_shapes {n : UInt32} {x : Shape} (h : s.shapes n = some x) :
    ∃ d, s.datasets.find? n = some d ∧ d.shape = x := Option.map_eq_some_iff.mp h

/-- The storage is as `Inv` says. -/
def Kept (s : RxNUMAStorage) : Prop := s.shapes.Inv s.allocated s.front

/-! ## Lookups -/

theorem isSome_dataset_iff {n : UInt32} : (s.dataset n).isSome = true ↔
    s.datasets.has n = true ∨ s.datasets.has s.front = true := by
  rw [dataset, OrdMap.isSome_find?, key]
  split
  · next h => exact iff_of_true h (.inl h)
  · next h => exact (or_iff_right h).symm

theorem defined_iff : s.Defined ↔ (s.shapes s.front).isSome = true := by
  rw [shapes, Option.isSome_map, OrdMap.isSome_find?]
  constructor
  · intro h
    exact (isSome_dataset_iff.mp (h s.front)).elim id id
  · intro h n
    exact isSome_dataset_iff.mpr (.inr h)

theorem dataset_of_find? {n : UInt32} {d : NUMADataset} (h : s.datasets.find? n = some d) :
    s.key n = n ∧ s.dataset n = some d := by
  have hkey : s.key n = n := if_pos (by rw [← OrdMap.isSome_find?, h]; rfl)
  exact ⟨hkey, by rw [dataset, hkey, h]⟩

/-! ## The primary dataset -/

/-- The scan for it, over datasets in the order of their nodes. -/
theorem last_cached {l : List (UInt32 × NUMADataset)} (id : UInt32)
    (hl : l.Pairwise fun x y => nodeLt x.1 y.1 = true) :
    let found := l.foldl (fun id kv => if kv.2.cache.isSome then kv.1 else id) id
    (found = id ∧ ∀ x ∈ l, x.2.cache.isSome = false) ∨
      ((∃ x ∈ l, x.1 = found ∧ x.2.cache.isSome = true) ∧
        ∀ x ∈ l, x.2.cache.isSome = true → x.1 ≤ found) := by
  induction l generalizing id with
  | nil => exact .inl ⟨rfl, nofun⟩
  | cons x l ih =>
      obtain ⟨hx, hl⟩ := List.pairwise_cons.mp hl
      rw [List.foldl_cons]
      cases hcache : x.2.cache.isSome with
      | false =>
          obtain ⟨hfound, hnone⟩ | ⟨⟨y, hy, hfound⟩, hlast⟩ := ih id hl
          · exact .inl ⟨hfound, List.forall_mem_cons.mpr ⟨hcache, hnone⟩⟩
          · refine .inr ⟨⟨y, List.mem_cons_of_mem _ hy, hfound⟩, ?_⟩
            intro z hz hsome
            obtain rfl | hz := List.mem_cons.mp hz
            · exact absurd (hcache.symm.trans hsome) Bool.false_ne_true
            · exact hlast z hz hsome
      | true =>
          refine .inr ?_
          obtain ⟨hfound, hnone⟩ | ⟨⟨y, hy, hfound⟩, hlast⟩ := ih x.1 hl
          · refine ⟨⟨x, List.mem_cons_self, hfound.symm, hcache⟩, ?_⟩
            intro z hz hsome
            obtain rfl | hz := List.mem_cons.mp hz
            · exact UInt32.le_of_eq hfound.symm
            · exact absurd ((hnone z hz).symm.trans hsome) Bool.false_ne_true
          · refine ⟨⟨y, List.mem_cons_of_mem _ hy, hfound⟩, ?_⟩
            intro z hz hsome
            obtain rfl | hz := List.mem_cons.mp hz
            · have hlt : z.1 < y.1 := by simpa [nodeLt] using hx y hy
              exact hfound.1 ▸ UInt32.le_of_lt hlt
            · exact hlast z hz hsome

/-- The primary dataset is the last that has a cache, if one has. -/
theorem primary_spec (h : ∃ n x, s.shapes n = some x ∧ x.cache ≠ none) :
    ∃ d, s.datasets.find? s.primary = some d ∧ d.shape.cache ≠ none ∧
      ∀ k y, s.shapes k = some y → y.cache ≠ none → k ≤ s.primary := by
  have hmem : ∀ {n x}, s.shapes n = some x → x.cache ≠ none →
      ∃ kv ∈ s.datasets.entries, kv.1 = n ∧ kv.2.cache.isSome = true := by
    intro n x hn hx
    obtain ⟨d, hd, rfl⟩ := find?_of_shapes hn
    exact ⟨(n, d), (OrdMap.find?_eq_some same_nodeLt).mp hd, rfl,
      NUMADataset.isSome_cache_iff.mpr hx⟩
  obtain ⟨n, x, hn, hx⟩ := h
  obtain ⟨kv, hkv, -, hsome⟩ := hmem hn hx
  obtain ⟨-, hnone⟩ | ⟨⟨⟨id, d⟩, hid, hfound, hcache⟩, hlast⟩ :=
    last_cached 0 s.datasets.sorted
  · exact absurd ((hnone kv hkv).symm.trans hsome) Bool.false_ne_true
  · have hprimary : s.primary = id := hfound.symm
    rw [hprimary]
    refine ⟨d, OrdMap.find?_of_mem same_nodeLt hid, NUMADataset.isSome_cache_iff.mp hcache, ?_⟩
    intro k y hk hy
    obtain ⟨kv, hkv, rfl, hsome⟩ := hmem hk hy
    exact (hlast kv hkv hsome).trans_eq hfound.symm

/-- What becomes of an initialised storage, by the dataset that is primary. -/
theorem initDatasets_spec {d : NUMADataset} (hd : s.datasets.find? s.primary = some d) :
    let d := d.init s.applied s.seed.data
    ∃ s', s.initDatasets = some s' ∧
      (s'.allocated = s.allocated ∧ s'.nodeset = s.nodeset ∧ s'.applied = s.applied ∧
        s'.seed = s.seed) ∧
      s'.datasets.find? s.primary = some d ∧
      ∀ n, n ≠ s.primary →
        s'.datasets.find? n = (s.datasets.find? n).map (NUMADataset.setRaw d.content) := by
  intro d'
  obtain ⟨hkey, hdataset⟩ := dataset_of_find? hd
  have hhas : s.datasets.has s.primary = true := by
    rw [← OrdMap.isSome_find?, hd, Option.isSome_some]
  have hassign := OrdMap.find?_assign (v := d') same_nodeLt hhas
  simp only [initDatasets, hdataset, hkey]
  refine ⟨_, rfl, ⟨rfl, rfl, rfl, rfl⟩, ?_, ?_⟩
  · dsimp only
    split
    · rw [OrdMap.find?_mapVal same_nodeLt, hassign, if_pos (same_nodeLt.mpr rfl), Option.map_some,
        if_pos rfl]
    · rw [hassign, if_pos (same_nodeLt.mpr rfl)]
  · intro n hn
    have hother : (s.datasets.assign s.primary d').find? n = s.datasets.find? n := by
      rw [hassign, if_neg fun h => hn (same_nodeLt.mp h).symm]
    dsimp only
    split
    · rw [OrdMap.find?_mapVal same_nodeLt, hother]
      simp only [if_neg hn]
      rfl
    · next hlength =>
        rw [hother]
        cases hfind : s.datasets.find? n with
        | none => rfl
        | some e =>
            have hprimary := (hassign s.primary).trans (if_pos (same_nodeLt.mpr rfl))
            exact absurd (OrdMap.eq_of_length_le_one same_nodeLt (Nat.le_of_not_lt hlength)
              (hother.trans hfind) hprimary) hn

/-- Where there are two datasets both have memory. -/
theorem Kept.memory_of_ne (hs : s.Kept) {n k : UInt32} {d e : NUMADataset}
    (hd : s.datasets.find? k = some d) (he : s.datasets.find? n = some e) (hne : n ≠ k) :
    e.memory = true := by
  by_contra hno
  rw [Bool.not_eq_true] at hno
  exact hne ((hs.memory (shapes_of_find? he) hno).2 (shapes_of_find? hd)).symm

/-- The shapes stay, and the storage is as it should be just when the first node has a dataset
and the primary one its cache. -/
theorem initDatasets_sound (hs : s.Kept) (halloc : s.allocated = true) :
    ∃ s', s.initDatasets = some s' ∧ s'.allocated = true ∧ s'.Kept ∧
      (s'.Defined ∧ s'.Filled ↔ s.shapes.Sound s.front) := by
  obtain ⟨d, hd, hcache, hlast⟩ := primary_spec (hs.cached halloc)
  obtain ⟨s', hs', ⟨halloc', hnodeset, happlied, hseed⟩, hprimary, hothers⟩ := initDatasets_spec hd
  have hfront : s'.front = s.front := by
    unfold front
    simp only [hnodeset]
  have hshapes : s'.shapes = s.shapes := by
    funext n
    unfold shapes
    by_cases hn : n = s.primary
    · rw [hn, hprimary, hd, Option.map_some, NUMADataset.shape_init, Option.map_some]
    · rw [hothers n hn, Option.map_map]
      congr 1
      exact funext fun e => NUMADataset.shape_setRaw _
  refine ⟨s', hs', halloc'.trans halloc, ?_, ?_⟩
  · unfold Kept
    rw [hshapes, halloc', hfront]
    exact hs
  have hfilled : s'.Filled ↔ d.shape.cache = some true := by
    constructor
    · rintro ⟨n, e, hn, he, -⟩
      by_cases hne : n = s.primary
      · obtain rfl := Option.some.inj (hprimary.symm.trans (hne ▸ hn))
        exact NUMADataset.shape_init (d := d) ▸ he.cache
      · -- a copy is not filled
        rw [hothers n hne, Option.map_eq_some_iff] at hn
        obtain ⟨e, hn, rfl⟩ := hn
        have hmemory := hs.memory_of_ne hd hn hne
        obtain ⟨cache, -, -, -, hcomputed⟩ := he
        simp [NUMADataset.setRaw, hmemory] at hcomputed
    · intro h
      refine ⟨s.primary, _, hprimary, ?_, ?_⟩
      · rw [happlied, hseed]
        exact NUMADataset.filled_init h
      · intro n e hn hne
        rw [hothers n hne, Option.map_eq_some_iff] at hn
        obtain ⟨e, hn, rfl⟩ := hn
        have hmemory := hs.memory_of_ne hd hn hne
        simp [NUMADataset.setRaw, hmemory]
  rw [defined_iff, hfilled, hshapes, hfront, hs.last_iff (shapes_of_find? hd) hcache hlast]
  exact ⟨fun h => ⟨h.1, h.2⟩, fun h => ⟨h.1, h.2⟩⟩

/-! ## What the threads leave -/

theorem find?_foldl_allocate (m : OrdMap UInt32 NUMADataset nodeLt) (attempts : List Attempt)
    (n : UInt32) : (attempts.foldl allocate m).find? n =
      (m.find? n).or ((attempts.filter fun a => a.node = n).findSome? Attempt.dataset?) := by
  induction attempts generalizing m with
  | nil => exact Option.or_none.symm
  | cons a attempts ih =>
      rw [List.foldl_cons, ih, allocate]
      cases hd : a.dataset? with
      | none =>
          by_cases hn : a.node = n
          · simp [hn, hd]
          · simp [hn]
      | some d =>
          dsimp only
          rw [OrdMap.find?_insert same_nodeLt]
          by_cases hn : a.node = n
          · have hsame : OrdMap.same nodeLt a.node n = true := same_nodeLt.mpr hn
            rw [if_pos hsame, List.filter_cons_of_pos (by simpa using hn), List.findSome?_cons, hd,
              Option.or_assoc, Option.some_or]
          · have hsame : ¬ OrdMap.same nodeLt a.node n = true := fun h => hn (same_nodeLt.mp h)
            rw [if_neg hsame, List.filter_cons_of_neg (by simpa using hn), Option.or_none]

theorem find?_arrived (h : s.allocated = false) (n : UInt32) :
    (s.arrived c).datasets.find? n = s.kept c n := by
  rw [kept, h, if_neg Bool.false_ne_true]
  exact find?_foldl_allocate _ _ n

theorem shapes_arrived (h : s.allocated = false) : (s.arrived c).shapes = s.keptShapes c :=
  funext fun n => congrArg (Option.map NUMADataset.shape) (find?_arrived h n)

theorem shape_dataset? {a : Attempt} {d : NUMADataset} (h : a.dataset? = some d) :
    d.memory = true ∧ (d.oneGbPages = true ↔ d.shape.cache ≠ none) := by
  unfold Attempt.dataset? at h
  split at h
  · contradiction
  · obtain ⟨oneGbPages, -, rfl⟩ := Option.map_eq_some_iff.mp h
    cases oneGbPages <;> simp [NUMADataset.shape]

theorem kept_arrived (hs : s.Kept) (h : s.allocated = false) : (s.arrived c).Kept := by
  have hbefore := hs
  unfold Kept at hbefore ⊢
  rw [show (s.arrived c).allocated = false from h, Shapes.inv_false_iff]
  rw [h, Shapes.inv_false_iff] at hbefore
  intro n x hx
  obtain ⟨d, hd, rfl⟩ := find?_of_shapes hx
  obtain hd | ⟨-, hd⟩ := Option.or_eq_some_iff.mp ((find?_foldl_allocate _ _ n).symm.trans hd)
  · exact hbefore n _ (shapes_of_find? hd)
  · obtain ⟨a, -, ha⟩ := List.exists_of_findSome?_eq_some hd
    exact shape_dataset? ha

/-- The shared cache is needed where no dataset has pages of 1 GB. -/
theorem isCacheRequired_iff : s.isCacheRequired = true ↔
    ∀ n x, s.shapes n = some x → x.oneGbPages = false := by
  unfold isCacheRequired
  rw [Bool.or_eq_true, Bool.not_eq_true', OrdMap.isEmpty_iff, ← Bool.not_eq_true, List.any_eq_true]
  constructor
  · rintro h n x hx
    obtain ⟨d, hd, rfl⟩ := find?_of_shapes hx
    have hmem := (OrdMap.find?_eq_some same_nodeLt).mp hd
    obtain hempty | hpages := h
    · rw [hempty] at hmem
      contradiction
    · exact Bool.eq_false_of_not_eq_true fun hd => hpages ⟨_, hmem, hd⟩
  · rintro h
    refine .inr fun ⟨kv, hkv, hpages⟩ => ?_
    have hfalse := h kv.1 _ (shapes_of_find? (OrdMap.find?_of_mem same_nodeLt hkv))
    exact Bool.false_ne_true (hfalse.symm.trans hpages)

/-! ## Creating the datasets -/

/-- Slow mode: the cache stands for the first node. -/
def slow (s : RxNUMAStorage) : RxNUMAStorage :=
  { s with
    datasets := s.datasets.insert s.front (.ofCache (.create true))
    allocated := true }

theorem shapes_slow (h : s.datasets.isEmpty = true) :
    s.slow.shapes = fun n => if s.front = n then some ⟨false, false, some true⟩ else none := by
  have hnone := (OrdMap.isEmpty_iff_find? same_nodeLt).mp h
  funext n
  unfold shapes slow
  dsimp only
  rw [OrdMap.find?_insert same_nodeLt, hnone, Option.none_or]
  simp only [same_nodeLt, apply_ite (Option.map NUMADataset.shape)]
  rfl

/-- The dataset of the first node with the shared cache. -/
def share (s : RxNUMAStorage) (d : NUMADataset) : RxNUMAStorage :=
  { s with
    datasets := s.datasets.assign s.front (d.setCache (.create true))
    allocated := true }

theorem shapes_share {d : NUMADataset} (hd : s.datasets.find? s.front = some d) :
    (s.share d).shapes = fun n =>
      if s.front = n then some ⟨d.memory, d.oneGbPages, some true⟩ else s.shapes n := by
  have hhas : s.datasets.has s.front = true := by
    rw [← OrdMap.isSome_find?, hd, Option.isSome_some]
  funext n
  unfold shapes share
  dsimp only
  rw [OrdMap.find?_assign same_nodeLt hhas]
  simp only [same_nodeLt, apply_ite (Option.map NUMADataset.shape)]
  rfl

/-- The branches of `createDatasets`. -/
theorem createDatasets_eq (s : RxNUMAStorage) (c : Call) : s.createDatasets c =
    let s := s.arrived c
    if s.isCacheRequired then
      if c.cache then
        if s.datasets.isEmpty then some (s.slow, true)
        else (s.datasets.find? s.front).map fun d => (s.share d, true)
      else some (s, false)
    else some ({ s with allocated := true }, true) := by
  have hdataset : ∀ s : RxNUMAStorage, s.dataset s.front = s.datasets.find? s.front := by
    intro s
    unfold dataset key
    rw [ite_self]
  unfold createDatasets
  dsimp only
  rw [hdataset]
  cases (s.arrived c).isCacheRequired with
  | false => rfl
  | true =>
      cases c.cache with
      | false => rfl
      | true =>
          cases (s.arrived c).datasets.isEmpty with
          | true => rfl
          | false => cases (s.arrived c).datasets.find? (s.arrived c).front <;> rfl

section

variable (hs : s.Kept) (h : s.allocated = false)
include hs h

theorem inv_arrived (c : Call) : (s.keptShapes c).Inv false s.front := by
  have hinv := kept_arrived (c := c) hs h
  rw [Kept, shapes_arrived h] at hinv
  exact h ▸ hinv

omit hs in
theorem kept_slow (hempty : (s.arrived c).datasets.isEmpty = true) :
    (s.arrived c).slow.Kept ∧ s.Survives c ∧
      (s.arrived c).slow.shapes.Sound (s.arrived c).slow.front := by
  have hslow := shapes_slow hempty
  have hfront : (s.arrived c).slow.front = (s.arrived c).front := rfl
  refine ⟨?_, .inl fun n => ?_, ?_⟩
  · rw [Kept, hslow]
    exact Shapes.inv_slow
  · rw [← find?_arrived h, (OrdMap.isEmpty_iff_find? same_nodeLt).mp hempty]
  · rw [hslow, hfront, Shapes.sound_iff_front]
    · simp
    · intro n x hx
      obtain ⟨-, rfl⟩ := (Option.ite_none_right_eq_some.mp hx).imp_right Option.some.inj
      rfl

theorem kept_share {d : NUMADataset} (hd : (s.arrived c).datasets.find? s.front = some d)
    (hno : ∀ n x, s.keptShapes c n = some x → x.oneGbPages = false) :
    ((s.arrived c).share d).Kept ∧ s.Survives c ∧
      ((s.arrived c).share d).shapes.Sound ((s.arrived c).share d).front := by
  have hfront : ((s.arrived c).share d).front = s.front := rfl
  have hshape : s.keptShapes c s.front = some d.shape := by
    rw [← shapes_arrived h, shapes_of_find? hd]
  have hmemory : d.memory = true :=
    ((Shapes.inv_false_iff.mp (inv_arrived hs h c)) _ _ hshape).1
  have hpages : d.oneGbPages = false := hno _ _ hshape
  have hshare := shapes_share (s := s.arrived c) hd
  rw [hmemory, hpages, shapes_arrived h] at hshare
  refine ⟨?_, .inr (.inr ((Shapes.sound_iff_front hno).mpr (by rw [hshape]; rfl))), ?_⟩
  · rw [Kept, hshare]
    exact (inv_arrived hs h c).share hno
  · rw [hshare, hfront, Shapes.sound_iff_front]
    · simp [arrived, front]
    · intro n x hx
      split at hx
      · obtain rfl := Option.some.inj hx
        rfl
      · exact hno n x hx

/-- `createDatasets` fails without the cache it needs, throws without the first node, or leaves
a storage that is sound just when the call is survived. -/
theorem createDatasets_cases (c : Call) :
    (s.createDatasets c = some (s.arrived c, false) ∧ s.Survives c) ∨
    (s.createDatasets c = none ∧ ¬ s.Survives c) ∨
    ∃ s', s.createDatasets c = some (s', true) ∧ s'.allocated = true ∧ s'.Kept ∧
      (s.Survives c ↔ s'.shapes.Sound s'.front) := by
  have hinv := inv_arrived hs h c
  have hshapes := shapes_arrived (c := c) h
  have hreq := isCacheRequired_iff (s := s.arrived c)
  rw [hshapes] at hreq
  rw [createDatasets_eq]
  dsimp only
  by_cases hno : ∀ n x, s.keptShapes c n = some x → x.oneGbPages = false
  · rw [if_pos (hreq.mpr hno)]
    cases hcache : c.cache with
    | false => exact .inl ⟨rfl, .inr (.inl ⟨h, hcache, hno⟩)⟩
    | true =>
        rw [if_pos rfl]
        cases hempty : (s.arrived c).datasets.isEmpty with
        | true =>
            obtain ⟨hkept, hsurvives, hsound⟩ := kept_slow h hempty
            exact .inr (.inr ⟨_, rfl, rfl, hkept, iff_of_true hsurvives hsound⟩)
        | false =>
            rw [if_neg Bool.false_ne_true]
            cases hfront : (s.arrived c).datasets.find? s.front with
            | some d =>
                obtain ⟨hkept, hsurvives, hsound⟩ := kept_share hs h hfront hno
                refine .inr (.inr ⟨_, congrArg (Option.map _) hfront, rfl, hkept, ?_⟩)
                exact iff_of_true hsurvives hsound
            | none =>
                refine .inr (.inl ⟨congrArg (Option.map _) hfront, ?_⟩)
                rintro (hnone | ⟨-, hfalse, -⟩ | hsound)
                · have hall : (s.arrived c).datasets.isEmpty = true :=
                    (OrdMap.isEmpty_iff_find? same_nodeLt).mpr fun n =>
                      (find?_arrived h n).trans (hnone n)
                  exact Bool.false_ne_true (hempty.symm.trans hall)
                · exact Bool.false_ne_true (hfalse.symm.trans hcache)
                · have hsome := hsound.front
                  rw [keptShapes, ← find?_arrived h, hfront] at hsome
                  exact Bool.false_ne_true hsome
  · rw [if_neg fun hrequired => hno (hreq.mp hrequired)]
    have hpages : ∃ n x, s.keptShapes c n = some x ∧ x.oneGbPages = true := by
      simpa using hno
    refine .inr (.inr ⟨_, rfl, rfl, ?_, ?_⟩)
    · rw [Kept]
      exact hshapes ▸ hinv.ownCaches hpages
    · obtain ⟨n, x, hx, -⟩ := hpages
      unfold Survives
      rw [or_iff_right, or_iff_right, ← hshapes]
      · rfl
      · exact fun hfalse => hno hfalse.2.2
      · intro hnone
        simp [keptShapes, hnone n] at hx

end

/-! ## Calls -/

theorem kept_new (nodeset : List UInt32) (nonempty : nodeset ≠ []) : (new nodeset nonempty).Kept :=
  Shapes.inv_false_iff.mpr nofun

/-- A call keeps what is known of the storage, and is survived just when it should be. -/
theorem init_cases (hs : s.Kept) (c : Call) :
    (∀ s', s.init c = some s' → s'.Kept) ∧ (s.Survived c ↔ s.Survives c) := by
  have hseed : (s.setSeed c.seed).Kept := hs
  unfold Survived init
  cases h : s.allocated with
  | true =>
      have hshapes : s.keptShapes c = s.shapes := by
        funext n
        rw [keptShapes, kept, h, if_pos rfl]
        rfl
      obtain ⟨s', hinit, halloc', hkept, hsound⟩ := initDatasets_sound hseed h
      have halloc : (s.setSeed c.seed).allocated = true := h
      simp only [halloc, if_true, hinit, Option.some.injEq, forall_eq', exists_eq_left', halloc',
        Bool.true_eq_false, false_or]
      refine ⟨hkept, hsound.trans ?_⟩
      unfold Survives
      rw [or_iff_right, or_iff_right, hshapes]
      · rfl
      · rintro ⟨hfalse, -⟩
        exact Bool.false_ne_true (hfalse.symm.trans h)
      · intro hnone
        obtain ⟨n, x, hx, -⟩ := hs.cached h
        rw [← hshapes, keptShapes, hnone n] at hx
        contradiction
  | false =>
      have halloc : (s.setSeed c.seed).allocated = false := h
      simp only [halloc, Bool.false_eq_true, if_false]
      obtain ⟨hcreate, hsurvives⟩ | ⟨hcreate, hnot⟩ | ⟨s₁, hcreate, halloc₁, hkept₁, hsound₁⟩ :=
        createDatasets_cases hseed halloc c
      · simp only [hcreate, Bool.not_false, if_true, Option.some.injEq, forall_eq',
          exists_eq_left']
        exact ⟨kept_arrived hseed halloc, iff_of_true (.inl halloc) hsurvives⟩
      · simp only [hcreate]
        refine ⟨fun s' h => absurd h.symm (Option.some_ne_none s'), iff_of_false ?_ hnot⟩
        rintro ⟨s', h, -⟩
        exact Option.some_ne_none s' h.symm
      · obtain ⟨s', hinit, halloc', hkept, hsound⟩ := initDatasets_sound hkept₁ halloc₁
        simp only [hcreate, Bool.not_true, Bool.false_eq_true, if_false, hinit, Option.some.injEq,
          forall_eq', exists_eq_left', halloc', Bool.true_eq_false, false_or]
        exact ⟨hkept, hsound.trans hsound₁.symm⟩

theorem kept_of_reachable (h : machine.Reachable s) : s.Kept := by
  refine h.invariant ?_ ?_
  · rintro s ⟨nodeset, nonempty, rfl⟩
    exact kept_new nodeset nonempty
  · intro s c s' hs _ hstep
    obtain ⟨-, hstep⟩ := Option.ite_none_right_eq_some.mp hstep
    exact (init_cases hs c).1 s' hstep

/-- **Partial allocations.**  After any calls, the next one returns and leaves a storage that is
not allocated, or whose lookups are all defined and whose datasets are one that was filled and
its copies, just when `Survives` says so. -/
theorem survived_iff (h : machine.Reachable s) (c : Call) : s.Survived c ↔ s.Survives c :=
  (init_cases (kept_of_reachable h) c).2

end RxNUMAStorage

end

namespace RxNUMAStorage

/-- A node that gets memory of ordinary pages, and one that gets none. -/
def got (node : UInt32) : Attempt := ⟨node, true, some false, false⟩

def skipped (node : UInt32) : Attempt := ⟨node, true, none, false⟩

def twoNodes : RxNUMAStorage := new [0, 1] (by decide)

/-- The second of two nodes gets nothing. -/
theorem survived_iff_second :
    let c : Call := ⟨⟨.RX_0, [1]⟩, [skipped 1, got 0], true⟩
    twoNodes.Survived c := by
  intro c
  have hreach : machine.Reachable twoNodes := .init ⟨[0, 1], by decide, rfl⟩
  refine (survived_iff hreach c).mpr (.inr (.inr ⟨rfl, ?_⟩))
  intro n x hx hpages
  obtain ⟨d, hd, rfl⟩ := Option.map_eq_some_iff.mp hx
  obtain ⟨a, ha, hda⟩ := List.exists_of_findSome?_eq_some hd
  have hmem : a ∈ c.attempts := (List.mem_filter.mp ha).1
  simp only [c, List.mem_cons, List.not_mem_nil, or_false] at hmem
  obtain rfl | rfl := hmem
  · contradiction
  · obtain rfl := Option.some.inj hda
    contradiction

/-- **The first node.**  If the first of two nodes gets nothing, the lookup for the cache
throws. -/
theorem throws_first : ¬ ∀ (s : RxNUMAStorage) (c : Call), machine.Reachable s → c.For s →
    s.Survived c := by
  intro h
  have hsurvived := h twoNodes ⟨⟨.RX_0, [1]⟩, [skipped 0, got 1], true⟩
    (.init ⟨[0, 1], by decide, rfl⟩) (by decide)
  obtain hnone | ⟨-, hcache, -⟩ | hsound := (init_cases (kept_new _ _) _).2.mp hsurvived
  · exact Option.some_ne_none _ (hnone 1)
  · contradiction
  · exact Bool.false_ne_true hsound.front

end RxNUMAStorage

end XLArig
