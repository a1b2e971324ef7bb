import XLArig.Arena
import XLArig.Machine

/-!
# XLArig.VirtualMemory

`crypto/common/VirtualMemory`, `MemoryPool` and `NUMAMemoryPool`: scratchpads that are taken from
a pool, or from the system where a pool has no room.

What the system answers is part of an event: the address of each block it is asked for, or null.

* `MemoryPool.Serves` — what a pool keeps of the scratchpads that it serves;
* `pools_sound` — they lie apart inside the block of the pool, as long as every pool was given a
  block.
-/

namespace XLArig

/-- `VirtualMemory::align`. -/
def alignUp (pos align : Nat) : Nat := ((pos + (2 ^ 64 - 1)) % 2 ^ 64 / align + 1) * align % 2 ^ 64

theorem le_alignUp {pos align : Nat} (halign : 0 < align) (hpos : 0 < pos)
    (h : pos + align ≤ 2 ^ 64) : pos ≤ alignUp pos align := by
  have hpred : (pos + (2 ^ 64 - 1)) % 2 ^ 64 = pos - 1 := by omega
  have hdiv := Nat.div_add_mod (pos - 1) align
  have hmod := Nat.mod_lt (pos - 1) halign
  have hmul : ((pos - 1) / align + 1) * align = align * ((pos - 1) / align) + align := by
    rw [Nat.add_mul, Nat.one_mul, Nat.mul_comm]
  unfold alignUp
  rw [hpred, hmul, Nat.mod_eq_of_lt (by omega)]
  omega

/-- The addresses that the system answers with: for the large pages that are tried before the
pool is asked, pages of 1 GiB, large pages and `_mm_malloc`. -/
structure Answers where
  first : Nat
  oneGb : Nat
  large : Nat
  malloc : Nat

structure VirtualMemory where
  size : Nat
  node : UInt32
  capacity : Nat
  hugePages : Bool
  oneGbPages : Bool
  external : Bool
  scratchpad : Nat

namespace VirtualMemory

/-- The members, before there is a scratchpad. -/
def blank (hugePageSize size : Nat) (node : UInt32) : VirtualMemory where
  size := alignUp size hugePageSize
  node := node
  capacity := alignUp size hugePageSize
  hugePages := false
  oneGbPages := false
  external := false
  scratchpad := 0

/-- The constructor, from where the pool has no say. -/
def allocate (m : VirtualMemory) (size : Nat) (hugePages oneGbPages : Bool) (answers : Answers) :
    VirtualMemory :=
  if oneGbPages ∧ answers.oneGb ≠ 0 then
    { m with scratchpad := answers.oneGb, oneGbPages := true, capacity := alignUp size (2 ^ 30) }
  else if hugePages ∧ answers.large ≠ 0 then
    { m with scratchpad := answers.large, hugePages := true }
  else { m with scratchpad := answers.malloc }

/-- `[scratchpad, scratchpad + size)`. -/
def range (m : VirtualMemory) : Nat × Nat := (m.scratchpad, m.size)

theorem size_lt (hugePageSize size : Nat) (node : UInt32) :
    (blank hugePageSize size node).size < 2 ^ 64 := Nat.mod_lt _ (by decide)

variable {m : VirtualMemory} {size : Nat} {hugePages oneGbPages : Bool} {answers : Answers}

@[simp] theorem size_allocate : (m.allocate size hugePages oneGbPages answers).size = m.size := by
  unfold allocate
  split_ifs <;> rfl

@[simp] theorem external_allocate :
    (m.allocate size hugePages oneGbPages answers).external = m.external := by
  unfold allocate
  split_ifs <;> rfl

end VirtualMemory

/-! ## MemoryPool -/

structure MemoryPool where
  refs : Nat
  offset : Nat
  alignOffset : Nat
  memory : Option VirtualMemory

namespace MemoryPool

def pageSize : Nat := 2 * 1024 * 1024

def alignment : Nat := 2 ^ 24

variable (hugePageSize : Nat)

/-- The block of a pool for a number of pages. -/
def block (size : Nat) (hugePages : Bool) (node : UInt32) (answers : Answers) : VirtualMemory :=
  let bytes := (size * pageSize + alignment) % 2 ^ 64
  (VirtualMemory.blank hugePageSize bytes node).allocate bytes hugePages false answers

def new (size : Nat) (hugePages : Bool) (node : UInt32) (answers : Answers) : MemoryPool :=
  if size = 0 then ⟨0, 0, 0, none⟩
  else
    let memory := block hugePageSize size hugePages node answers
    ⟨0, 0, (alignment - memory.scratchpad % alignment) % alignment, some memory⟩

def isHugePages (p : MemoryPool) : Bool := p.memory.any VirtualMemory.hugePages

/-- `get`; the difference is one of unsigned numbers. -/
def get (p : MemoryPool) (size : Nat) : Nat × MemoryPool :=
  match p.memory with
  | none => (0, p)
  | some memory =>
      if (memory.size + (2 ^ 64 - p.offset) + (2 ^ 64 - p.alignOffset)) % 2 ^ 64 < size then (0, p)
      else (memory.scratchpad + p.alignOffset + p.offset,
        { p with offset := (p.offset + size) % 2 ^ 64, refs := p.refs + 1 })

/-- `release`, in a build without assertions. -/
def release (p : MemoryPool) : MemoryPool :=
  let refs := if 0 < p.refs then p.refs - 1 else p.refs
  { p with refs := refs, offset := if refs = 0 then 0 else p.offset }

end MemoryPool

namespace MemoryPool

/-- The block of a pool was allocated, and the first multiple of 16 MiB is not past its end. -/
def Given (b : VirtualMemory) : Prop :=
  b.scratchpad ≠ 0 ∧
    (b.scratchpad + (alignment - 1)) / alignment * alignment ≤ b.scratchpad + b.size

instance (b : VirtualMemory) : Decidable (Given b) := inferInstanceAs (Decidable (_ ∧ _))

/-- Where the size of the block does not wrap around, it only has to be allocated. -/
theorem given_iff {hugePageSize size : Nat} {hugePages : Bool} {node : UInt32} {answers : Answers}
    (hpage : 0 < hugePageSize) (h : size * pageSize + alignment + hugePageSize ≤ 2 ^ 64) :
    Given (block hugePageSize size hugePages node answers) ↔
      (block hugePageSize size hugePages node answers).scratchpad ≠ 0 := by
  refine ⟨fun hgiven => hgiven.1, fun hnull => ⟨hnull, ?_⟩⟩
  have halign : alignment = 2 ^ 24 := rfl
  have hbytes : (size * pageSize + alignment) % 2 ^ 64 = size * pageSize + alignment :=
    Nat.mod_eq_of_lt (by omega)
  have hsize : size * pageSize + alignment ≤
      (block hugePageSize size hugePages node answers).size := by
    unfold block
    rw [hbytes, VirtualMemory.size_allocate]
    exact le_alignUp hpage (by omega) h
  rw [halign] at hsize ⊢
  omega

/-- A pool and the objects that it serves. -/
structure Serves (p : MemoryPool) (l : List VirtualMemory) : Prop where
  refs : p.refs = l.length
  empty : p.memory = none → l = []
  given : ∀ b, p.memory = some b → b.scratchpad ≠ 0 ∧ b.size < 2 ^ 64
  aligned : ∀ b, p.memory = some b → alignment ∣ b.scratchpad + p.alignOffset
  room : ∀ b, p.memory = some b → p.offset + p.alignOffset ≤ b.size
  lends : ∀ b, p.memory = some b → Arena.Lends (b.scratchpad + p.alignOffset)
    (b.scratchpad + p.alignOffset + p.offset) (l.map VirtualMemory.range)

section

variable {hugePageSize size : Nat} {hugePages : Bool} {node : UInt32} {answers : Answers}
variable {p : MemoryPool} {l l' : List VirtualMemory} {m : VirtualMemory}

theorem new_serves (h : size ≠ 0 → Given (block hugePageSize size hugePages node answers)) :
    (new hugePageSize size hugePages node answers).Serves [] := by
  unfold new
  split
  · exact ⟨rfl, fun _ => rfl, by simp, by simp, by simp, by simp⟩
  · next hsize =>
    obtain ⟨hnull, hroom⟩ := h hsize
    have hlt : (block hugePageSize size hugePages node answers).size < 2 ^ 64 := by
      unfold block
      rw [VirtualMemory.size_allocate]
      exact VirtualMemory.size_lt ..
    have halign : alignment = 2 ^ 24 := rfl
    rw [halign] at hroom ⊢
    refine ⟨rfl, by simp, ?_, ?_, ?_, ?_⟩
    all_goals
      rintro b hb
      obtain rfl := Option.some.inj hb
    · exact ⟨hnull, hlt⟩
    · rw [halign]
      dsimp only
      omega
    · dsimp only
      omega
    · exact Arena.lends_nil _

theorem Serves.perm (h : p.Serves l) (hl : l.Perm l') : p.Serves l' where
  refs := h.refs.trans hl.length_eq
  empty hnone := by
    have hnil := h.empty hnone
    subst hnil
    exact hl.nil_eq.symm
  given := h.given
  aligned := h.aligned
  room := h.room
  lends b hb := (h.lends b hb).perm (hl.map _)

theorem Serves.block (h : p.Serves l) (hm : m ∈ l) : ∃ b, p.memory = some b := by
  cases hb : p.memory with
  | none =>
      rw [h.empty hb] at hm
      contradiction
  | some b => exact ⟨b, rfl⟩

/-- An object that is served lies in the block. -/
theorem Serves.inside (h : p.Serves l) (hm : m ∈ l) {b : VirtualMemory}
    (hb : p.memory = some b) :
    b.scratchpad ≤ m.scratchpad ∧ m.scratchpad + m.size ≤ b.scratchpad + b.size := by
  have hrange : b.scratchpad + p.alignOffset ≤ m.scratchpad ∧
      m.scratchpad + m.size ≤ b.scratchpad + p.alignOffset + p.offset :=
    (h.lends b hb).within m.range (List.mem_map_of_mem hm)
  have hroom := h.room b hb
  omega

theorem Serves.ne_null (h : p.Serves l) (hm : m ∈ l) : m.scratchpad ≠ 0 := by
  obtain ⟨b, hb⟩ := h.block hm
  have hnull := (h.given b hb).1
  have hinside := (h.inside hm hb).1
  omega

/-- What holds of a pool and the objects that it serves: they lie apart in its block, which has
room for what `get` cut off; they are counted; and where there are none, a request that fits is
given the aligned base. -/
structure Sound (p : MemoryPool) (l : List VirtualMemory) : Prop where
  apart : l.Pairwise fun m m' => Arena.Beside m.range m'.range
  inside : ∀ m ∈ l, ∃ b, p.memory = some b ∧
    b.scratchpad ≤ m.scratchpad ∧ m.scratchpad + m.size ≤ b.scratchpad + b.size
  room : ∀ b, p.memory = some b → p.offset + p.alignOffset ≤ b.size
  refs : p.refs = l.length
  restarts : l = [] → ∀ b, p.memory = some b → ∀ size, size ≤ b.size - p.alignOffset →
    (p.get size).1 = b.scratchpad + p.alignOffset ∧ alignment ∣ b.scratchpad + p.alignOffset

/-- The difference that `get` computes is the room that is left. -/
theorem Serves.free (h : p.Serves l) {b : VirtualMemory} (hb : p.memory = some b) :
    (b.size + (2 ^ 64 - p.offset) + (2 ^ 64 - p.alignOffset)) % 2 ^ 64 =
      b.size - (p.offset + p.alignOffset) := by
  have hroom := h.room b hb
  have hlt := (h.given b hb).2
  omega

theorem Serves.get_eq (h : p.Serves l) {b : VirtualMemory} (hb : p.memory = some b) (size : Nat) :
    p.get size =
      if p.offset + p.alignOffset + size ≤ b.size then
        (b.scratchpad + p.alignOffset + p.offset,
          { p with offset := p.offset + size, refs := p.refs + 1 })
      else (0, p) := by
  have hroom := h.room b hb
  have hlt := (h.given b hb).2
  unfold get
  rw [hb]
  dsimp only
  rw [h.free hb]
  by_cases hfits : p.offset + p.alignOffset + size ≤ b.size
  · have hmod : (p.offset + size) % 2 ^ 64 = p.offset + size := Nat.mod_eq_of_lt (by omega)
    rw [if_pos hfits, if_neg (by omega), hmod]
  · rw [if_neg hfits, if_pos (by omega)]

/-- Where nothing is served the next request starts at the aligned base. -/
theorem Serves.restarts (h : p.Serves []) {b : VirtualMemory} (hb : p.memory = some b)
    (hsize : size ≤ b.size - p.alignOffset) :
    (p.get size).1 = b.scratchpad + p.alignOffset := by
  have hroom := h.room b hb
  have hrewound := (h.lends b hb).rewound rfl
  rw [h.get_eq hb, if_pos (by omega)]
  dsimp only
  omega

theorem Serves.sound (h : p.Serves l) : p.Sound l where
  apart := by
    cases l with
    | nil => exact .nil
    | cons m l =>
        obtain ⟨b, hb⟩ := h.block List.mem_cons_self
        exact List.pairwise_map.mp (h.lends b hb).apart
  inside m hm := by
    obtain ⟨b, hb⟩ := h.block hm
    exact ⟨b, hb, h.inside hm hb⟩
  room := h.room
  refs := h.refs
  restarts := by
    rintro rfl b hb size hsize
    exact ⟨h.restarts hb hsize, h.aligned b hb⟩

/-- A request that is not met changes nothing, and one that is met is served. -/
theorem Serves.get (h : p.Serves l) (size : Nat) :
    ((p.get size).1 = 0 → (p.get size).2 = p) ∧
      ((p.get size).1 ≠ 0 → ∀ m : VirtualMemory, m.scratchpad = (p.get size).1 → m.size = size →
        (p.get size).2.Serves (m :: l)) := by
  cases hb : p.memory with
  | none =>
      have hget : p.get size = (0, p) := by
        unfold MemoryPool.get
        rw [hb]
      rw [hget]
      exact ⟨fun _ => rfl, fun hne => absurd rfl hne⟩
  | some b =>
      have hnull := (h.given b hb).1
      rw [h.get_eq hb]
      split
      · next hfits =>
        refine ⟨fun h0 => absurd h0 (by dsimp only; omega), fun _ m hm hsize => ?_⟩
        dsimp only at hm
        have hrange : m.range = (b.scratchpad + p.alignOffset + p.offset, size) :=
          Prod.ext hm hsize
        have hlends := (h.lends b hb).take size
        rw [← hrange, Nat.add_assoc _ p.offset size] at hlends
        refine ⟨congrArg (· + 1) h.refs, fun hnone => ?_, h.given, h.aligned, ?_, ?_⟩
        · rw [hb] at hnone
          contradiction
        all_goals
          rintro b' hb'
          obtain rfl : b = b' := Option.some.inj (hb.symm.trans hb')
        · dsimp only
          omega
        · exact hlends
      · exact ⟨fun _ => rfl, fun hne => absurd rfl hne⟩

/-- What is given back, whether it is the last or not. -/
theorem Serves.release (h : p.Serves (m :: l)) : p.release.Serves l := by
  have hrefs : p.refs = l.length + 1 := h.refs
  have hcount : (if 0 < p.refs then p.refs - 1 else p.refs) = l.length := by
    rw [if_pos (by omega)]
    omega
  unfold MemoryPool.release
  dsimp only
  rw [hcount]
  refine ⟨rfl, fun hnone => absurd (h.empty hnone) (List.cons_ne_nil _ _), h.given, h.aligned,
    ?_, ?_⟩
  · rintro b hb
    have hroom := h.room b hb
    dsimp only
    split <;> omega
  · rintro b hb
    have hlends := h.lends b hb
    dsimp only
    cases l with
    | nil => exact Arena.lends_nil _
    | cons m' l =>
        rw [if_neg (by simp)]
        exact hlends.give (List.cons_ne_nil _ _)

end

end MemoryPool

/-! ## NUMAMemoryPool -/

structure NUMAMemoryPool where
  hugePages : Bool
  nodeSize : Nat
  size : Nat
  map : UInt32 → Option MemoryPool

namespace NUMAMemoryPool

variable (hugePageSize : Nat)

def new (size : Nat) (hugePages : Bool) (nodes : Nat) : NUMAMemoryPool :=
  ⟨hugePages, max (size / nodes) 1, size, fun _ => none⟩

/-- The pool of a node, as it is after a call. -/
def set (q : NUMAMemoryPool) (node : UInt32) (p : MemoryPool) : NUMAMemoryPool :=
  { q with map := fun n => if n = node then some p else q.map n }

def getOrCreate (q : NUMAMemoryPool) (node : UInt32) (answers : Answers) : MemoryPool :=
  (q.map node).getD (.new hugePageSize q.nodeSize q.hugePages node answers)

end NUMAMemoryPool

/-! ## Both pools -/

inductive IMemoryPool
  | memoryPool (p : MemoryPool)
  | numa (q : NUMAMemoryPool)

namespace IMemoryPool

variable (hugePageSize : Nat)

def isHugePages (node : UInt32) (answers : Answers) : IMemoryPool → Bool × IMemoryPool
  | memoryPool p => (p.isHugePages, memoryPool p)
  | numa q =>
      if q.size = 0 then (false, numa q)
      else
        let p := q.getOrCreate hugePageSize node answers
        (p.isHugePages, numa (q.set node p))

def get (size : Nat) (node : UInt32) (answers : Answers) : IMemoryPool → Nat × IMemoryPool
  | memoryPool p => ((p.get size).1, memoryPool (p.get size).2)
  | numa q =>
      if q.size = 0 then (0, numa q)
      else
        let r := (q.getOrCreate hugePageSize node answers).get size
        (r.1, numa (q.set node r.2))

def release (node : UInt32) : IMemoryPool → IMemoryPool
  | memoryPool p => memoryPool p.release
  | numa q =>
      match q.map node with
      | none => numa q
      | some p => numa (q.set node p.release)

/-- The pool that serves a node, if there is one. -/
def poolOf : IMemoryPool → UInt32 → Option MemoryPool
  | memoryPool p, _ => some p
  | numa q, node => q.map node

/-- Whether two nodes have one pool. -/
def shares : IMemoryPool → UInt32 → UInt32 → Bool
  | memoryPool _, _, _ => true
  | numa _, node, node' => node = node'

/-- The pool that a call for a node works on. -/
def opened (node : UInt32) (answers : Answers) : IMemoryPool → Option MemoryPool
  | memoryPool p => some p
  | numa q => if q.size = 0 then none else some (q.getOrCreate hugePageSize node answers)

/-- The pools after a call for a node. -/
def put (node : UInt32) (p : MemoryPool) : IMemoryPool → IMemoryPool
  | memoryPool _ => memoryPool p
  | numa q => numa (q.set node p)

section

variable {hugePageSize : Nat} {pool : IMemoryPool} {node node' : UInt32} {size : Nat}
variable {answers : Answers} {p : MemoryPool}

/-- Only a pool of nodes without room opens nothing. -/
theorem opened_none (h : pool.opened hugePageSize node answers = none) :
    ∃ q, pool = .numa q ∧ q.size = 0 := by
  cases pool with
  | memoryPool p => simp [opened] at h
  | numa q => exact ⟨q, rfl, by simpa [opened] using h⟩

theorem opened_some (h : pool.opened hugePageSize node answers = some p) :
    pool = .memoryPool p ∨
      ∃ q, pool = .numa q ∧ q.size ≠ 0 ∧ q.getOrCreate hugePageSize node answers = p := by
  cases pool with
  | memoryPool p' => exact .inl (congrArg memoryPool (Option.some.inj h))
  | numa q => exact .inr ⟨q, rfl, by simpa [opened] using h⟩

theorem isHugePages_of_none (h : pool.opened hugePageSize node answers = none) :
    pool.isHugePages hugePageSize node answers = (false, pool) := by
  obtain ⟨q, rfl, hsize⟩ := opened_none h
  exact if_pos hsize

theorem isHugePages_of_some (h : pool.opened hugePageSize node answers = some p) :
    pool.isHugePages hugePageSize node answers = (p.isHugePages, pool.put node p) := by
  obtain rfl | ⟨q, rfl, hsize, rfl⟩ := opened_some h
  · rfl
  · exact if_neg hsize

theorem get_of_none (h : pool.opened hugePageSize node answers = none) :
    pool.get hugePageSize size node answers = (0, pool) := by
  obtain ⟨q, rfl, hsize⟩ := opened_none h
  exact if_pos hsize

theorem get_of_some (h : pool.opened hugePageSize node answers = some p) :
    pool.get hugePageSize size node answers = ((p.get size).1, pool.put node (p.get size).2) := by
  obtain rfl | ⟨q, rfl, hsize, rfl⟩ := opened_some h
  · rfl
  · exact if_neg hsize

theorem release_of_some (h : pool.poolOf node = some p) :
    pool.release node = pool.put node p.release := by
  cases pool with
  | memoryPool p' =>
      obtain rfl := Option.some.inj h
      rfl
  | numa q =>
      have hmap : q.map node = some p := h
      simp only [release, hmap]
      rfl

@[simp] theorem shares_put : (pool.put node p).shares = pool.shares := by
  cases pool <;> rfl

theorem shares_self (pool : IMemoryPool) (node : UInt32) : pool.shares node node = true := by
  cases pool with
  | memoryPool p => rfl
  | numa q => exact decide_eq_true rfl

theorem poolOf_put : (pool.put node p).poolOf node' =
    if pool.shares node node' then some p else pool.poolOf node' := by
  cases pool with
  | memoryPool p' => rfl
  | numa q =>
      show (if node' = node then some p else q.map node') = _
      by_cases h : node = node'
      · subst h
        simp [shares]
      · rw [if_neg (Ne.symm h)]
        simp [shares, h, poolOf]

end

end IMemoryPool

namespace IMemoryPool

/-! ### The pools of all nodes -/

/-- The objects that the pool of a node serves. -/
def served (pool : IMemoryPool) (live : List VirtualMemory) (node : UInt32) :
    List VirtualMemory :=
  live.filter fun m => m.external && pool.shares m.node node

/-- Every pool serves its objects, and where there is none there is nothing to serve. -/
def Serves (pool : IMemoryPool) (live : List VirtualMemory) : Prop :=
  ∀ node,
    match pool.poolOf node with
    | none => pool.served live node = []
    | some p => p.Serves (pool.served live node)

/-- A pool that has to be made for a node is given a block. -/
def GivenFor (hugePageSize : Nat) (node : UInt32) (answers : Answers) : IMemoryPool → Prop
  | memoryPool _ => True
  | numa q => q.size ≠ 0 → q.map node = none →
      MemoryPool.Given (MemoryPool.block hugePageSize q.nodeSize q.hugePages node answers)

section

variable {hugePageSize : Nat} {pool : IMemoryPool} {live live' : List VirtualMemory}
variable {node node' : UInt32} {size : Nat} {answers : Answers} {p : MemoryPool}
variable {m : VirtualMemory}

theorem served_put : (pool.put node p).served live node' = pool.served live node' := by
  unfold served
  rw [shares_put]

theorem served_congr (h : pool.shares node node' = true) :
    pool.served live node = pool.served live node' := by
  cases pool with
  | memoryPool p => rfl
  | numa q =>
      obtain rfl := of_decide_eq_true h
      rfl

theorem served_cons_of_shares (hext : m.external = true) (h : pool.shares m.node node = true) :
    pool.served (m :: live) node = m :: pool.served live node :=
  List.filter_cons_of_pos (by rw [hext, h]; rfl)

theorem served_cons_of_not (h : ¬ (m.external = true ∧ pool.shares m.node node = true)) :
    pool.served (m :: live) node = pool.served live node :=
  List.filter_cons_of_neg (by rw [Bool.and_eq_true]; exact h)

theorem Serves.of_some (h : pool.Serves live) (hp : pool.poolOf node = some p) :
    p.Serves (pool.served live node) := by
  have hnode := h node
  rw [hp] at hnode
  exact hnode

theorem Serves.of_none (h : pool.Serves live) (hp : pool.poolOf node = none) :
    pool.served live node = [] := by
  have hnode := h node
  rw [hp] at hnode
  exact hnode

theorem Serves.perm (h : pool.Serves live) (hl : live.Perm live') : pool.Serves live' := by
  intro node
  have hperm : (pool.served live node).Perm (pool.served live' node) := hl.filter _
  cases hp : pool.poolOf node with
  | none =>
      rw [h.of_none hp] at hperm
      exact hperm.nil_eq.symm
  | some p => exact (h.of_some hp).perm hperm

/-- An object that no pool serves. -/
theorem serves_cons_of_not (hext : m.external = false) :
    pool.Serves (m :: live) ↔ pool.Serves live := by
  have hserved : ∀ node, pool.served (m :: live) node = pool.served live node :=
    fun node => served_cons_of_not (by simp [hext])
  simp only [Serves, hserved]

/-- The pool of one node is replaced. -/
theorem Serves.put (h : pool.Serves live) (hp : p.Serves (pool.served live' node))
    (hothers : ∀ node', pool.shares node node' = false →
      pool.served live' node' = pool.served live node') : (pool.put node p).Serves live' := by
  intro node'
  rw [poolOf_put, served_put]
  cases hshares : pool.shares node node' with
  | true =>
      rw [served_congr hshares] at hp
      exact hp
  | false =>
      rw [hothers node' hshares]
      exact h node'

/-- A pool that is made serves nothing yet. -/
theorem Serves.opened (h : pool.Serves live) (hgiven : pool.GivenFor hugePageSize node answers)
    (hp : pool.opened hugePageSize node answers = some p) : p.Serves (pool.served live node) := by
  cases pool with
  | memoryPool p' => exact h.of_some hp
  | numa q =>
      obtain ⟨hsize, rfl⟩ : q.size ≠ 0 ∧ q.getOrCreate hugePageSize node answers = p := by
        simpa [IMemoryPool.opened] using hp
      unfold NUMAMemoryPool.getOrCreate
      cases hmap : q.map node with
      | none =>
          rw [h.of_none hmap]
          exact MemoryPool.new_serves fun _ => hgiven hsize hmap
      | some p => exact h.of_some hmap

/-- Whether a pool is asked for huge pages makes no difference. -/
theorem Serves.isHugePages (h : pool.Serves live)
    (hgiven : pool.GivenFor hugePageSize node answers) :
    (pool.isHugePages hugePageSize node answers).2.Serves live := by
  cases hp : pool.opened hugePageSize node answers with
  | none => rwa [isHugePages_of_none hp]
  | some p =>
      rw [isHugePages_of_some hp]
      exact h.put (h.opened hgiven hp) fun _ _ => rfl

/-- A request that is not met makes no difference, and one that is met is served. -/
theorem Serves.get (h : pool.Serves live) (hgiven : pool.GivenFor hugePageSize node answers)
    (size : Nat) :
    ((pool.get hugePageSize size node answers).1 = 0 →
      (pool.get hugePageSize size node answers).2.Serves live) ∧
    ((pool.get hugePageSize size node answers).1 ≠ 0 → ∀ m : VirtualMemory,
      m.scratchpad = (pool.get hugePageSize size node answers).1 → m.size = size →
      m.node = node → m.external = true →
      (pool.get hugePageSize size node answers).2.Serves (m :: live)) := by
  cases hp : pool.opened hugePageSize node answers with
  | none =>
      rw [get_of_none hp]
      exact ⟨fun _ => h, fun hne => absurd rfl hne⟩
  | some p =>
      have hserves := h.opened hgiven hp
      obtain ⟨hfails, hmet⟩ := hserves.get size
      rw [get_of_some hp]
      dsimp only
      refine ⟨fun h0 => ?_, fun hne m hm hsize hnode hext => ?_⟩
      · rw [hfails h0]
        exact h.put hserves fun _ _ => rfl
      · have hself : pool.shares m.node node = true := by
          rw [hnode]
          exact shares_self pool node
        refine h.put ?_ fun node' hnot => served_cons_of_not ?_
        · rw [served_cons_of_shares hext hself]
          exact hmet hne m hm hsize
        · rw [hnode, hnot]
          simp

theorem GivenFor.put (h : pool.GivenFor hugePageSize node answers) :
    (pool.put node p).GivenFor hugePageSize node answers := by
  cases pool with
  | memoryPool p' => trivial
  | numa q =>
      intro _ hnone
      have hsome : (q.set node p).map node = some p := if_pos rfl
      rw [hsome] at hnone
      contradiction

theorem GivenFor.isHugePages (h : pool.GivenFor hugePageSize node answers) :
    (pool.isHugePages hugePageSize node answers).2.GivenFor hugePageSize node answers := by
  cases hp : pool.opened hugePageSize node answers with
  | none => rwa [isHugePages_of_none hp]
  | some p =>
      rw [isHugePages_of_some hp]
      exact h.put

theorem GivenFor.get (h : pool.GivenFor hugePageSize node answers) (size : Nat) :
    (pool.get hugePageSize size node answers).2.GivenFor hugePageSize node answers := by
  cases hp : pool.opened hugePageSize node answers with
  | none => rwa [get_of_none hp]
  | some p =>
      rw [get_of_some hp]
      exact h.put

/-- An object that is served is given back to the pool that serves it. -/
theorem Serves.release (h : pool.Serves (m :: live)) (hext : m.external = true) :
    (pool.release m.node).Serves live := by
  have hself := shares_self pool m.node
  cases hp : pool.poolOf m.node with
  | none =>
      have hnil := h.of_none hp
      rw [served_cons_of_shares hext hself] at hnil
      contradiction
  | some p =>
      have hserves := h.of_some hp
      rw [served_cons_of_shares hext hself] at hserves
      rw [release_of_some hp]
      refine h.put hserves.release fun node' hnot => (served_cons_of_not ?_).symm
      rw [hnot]
      simp

/-- What a pool serves is not null. -/
theorem Serves.ne_null (h : pool.Serves live) (hm : m ∈ live) (hext : m.external = true) :
    m.scratchpad ≠ 0 := by
  have hmem : m ∈ pool.served live m.node :=
    List.mem_filter.mpr ⟨hm, by rw [hext, shares_self]; rfl⟩
  cases hp : pool.poolOf m.node with
  | none =>
      rw [h.of_none hp] at hmem
      contradiction
  | some p => exact (h.of_some hp).ne_null hmem

end

end IMemoryPool

/-! ## Constructions and destructions -/

/-- The pool and the objects that were made with `usePool`. -/
structure Scratchpads where
  pool : IMemoryPool
  live : List VirtualMemory

/-- `VirtualMemory::init`, of a process that has `nodes` nodes. -/
def Scratchpads.init (hugePageSize nodes poolSize : Nat) (hugePages : Bool) (answers : Answers) :
    Scratchpads :=
  if 1 < nodes then ⟨.numa (.new (alignUp poolSize nodes) hugePages nodes), []⟩
  else ⟨.memoryPool (.new hugePageSize poolSize hugePages 0 answers), []⟩

/-- The constructor with `usePool`; `block` is for the block of a pool that is made. -/
def VirtualMemory.new (hugePageSize size : Nat) (hugePages oneGbPages : Bool) (node : UInt32)
    (answers block : Answers) (pool : IMemoryPool) : VirtualMemory × IMemoryPool :=
  let m := blank hugePageSize size node
  let asked := if hugePages then pool.isHugePages hugePageSize node block else (true, pool)
  if ¬ asked.1 ∧ answers.first ≠ 0 then
    ({ m with scratchpad := answers.first, hugePages := true }, asked.2)
  else
    let got := asked.2.get hugePageSize m.size node block
    if got.1 ≠ 0 then
      let flag := got.2.isHugePages hugePageSize node block
      ({ m with scratchpad := got.1, hugePages := flag.1, external := true }, flag.2)
    else (m.allocate size hugePages oneGbPages answers, got.2)

namespace Scratchpads

inductive Event
  | construct (size : Nat) (hugePages oneGbPages : Bool) (node : UInt32)
      (answers block : Answers)
  | destroy (i : Nat)

variable (hugePageSize : Nat)

def step (s : Scratchpads) : Event → Option Scratchpads
  | .construct size hugePages oneGbPages node answers block =>
      let r := VirtualMemory.new hugePageSize size hugePages oneGbPages node answers block s.pool
      some ⟨r.2, r.1 :: s.live⟩
  | .destroy i =>
      match s.live[i]? with
      | none => none
      | some m =>
          some ⟨if m.scratchpad ≠ 0 ∧ m.external then s.pool.release m.node else s.pool,
            s.live.eraseIdx i⟩

/-- Constructions and destructions, one after another. -/
def machine (nodes poolSize : Nat) (hugePages : Bool) (answers : Answers) :
    Machine Scratchpads Event where
  init s := s = init hugePageSize nodes poolSize hugePages answers
  step := step hugePageSize

/-- Where a pool has to be made, it is given a block. -/
def Given (s : Scratchpads) : Event → Prop
  | .construct _ _ _ node _ block => s.pool.GivenFor hugePageSize node block
  | .destroy _ => True

variable {hugePageSize} {s s' : Scratchpads} {e : Event} {nodes poolSize : Nat}
variable {hugePages oneGbPages : Bool} {node : UInt32} {answers block : Answers}

theorem new_serves (h : s.pool.Serves s.live) (hgiven : s.pool.GivenFor hugePageSize node block)
    (size : Nat) :
    (VirtualMemory.new hugePageSize size hugePages oneGbPages node answers block s.pool).2.Serves
      ((VirtualMemory.new hugePageSize size hugePages oneGbPages node answers block s.pool).1 ::
        s.live) := by
  unfold VirtualMemory.new
  dsimp only
  generalize hasked :
    (if hugePages then s.pool.isHugePages hugePageSize node block else (true, s.pool)) = asked
  obtain ⟨hserves, hgiven⟩ :
      asked.2.Serves s.live ∧ asked.2.GivenFor hugePageSize node block := by
    rw [← hasked]
    split
    · exact ⟨h.isHugePages hgiven, hgiven.isHugePages⟩
    · exact ⟨h, hgiven⟩
  split
  · exact (IMemoryPool.serves_cons_of_not rfl).mpr hserves
  · obtain ⟨hfails, hmet⟩ :=
      hserves.get hgiven (VirtualMemory.blank hugePageSize size node).size
    split
    · next hne =>
      refine IMemoryPool.Serves.isHugePages ?_ (hgiven.get _)
      exact hmet hne _ rfl rfl rfl rfl
    · next h0 =>
      refine (IMemoryPool.serves_cons_of_not ?_).mpr (hfails (not_not.mp h0))
      exact VirtualMemory.external_allocate

theorem init_serves
    (h : nodes ≤ 1 → poolSize ≠ 0 →
      MemoryPool.Given (MemoryPool.block hugePageSize poolSize hugePages 0 answers)) :
    (init hugePageSize nodes poolSize hugePages answers).pool.Serves
      (init hugePageSize nodes poolSize hugePages answers).live := by
  unfold init
  split
  · exact fun _ => rfl
  · next hone => exact fun _ => MemoryPool.new_serves (h (by omega))

theorem step_serves (h : s.pool.Serves s.live) (hgiven : s.Given hugePageSize e)
    (hs : step hugePageSize s e = some s') : s'.pool.Serves s'.live := by
  cases e with
  | construct size hugePages oneGbPages node answers block =>
      obtain rfl := Option.some.inj hs
      exact new_serves h hgiven size
  | destroy i =>
      cases hget : s.live[i]? with
      | none =>
          simp only [step, hget] at hs
          contradiction
      | some m =>
          simp only [step, hget, Option.some.injEq] at hs
          subst hs
          obtain ⟨hi, rfl⟩ := List.getElem?_eq_some_iff.mp hget
          have hperm := h.perm (List.getElem_cons_eraseIdx_perm hi).symm
          split
          · next hext => exact hperm.release hext.2
          · next hnot =>
            refine (IMemoryPool.serves_cons_of_not ?_).mp hperm
            rw [← Bool.not_eq_true]
            exact fun hext => hnot ⟨h.ne_null (List.getElem_mem hi) hext, hext⟩

/-- What holds of every pool; where there is none, nothing is served. -/
def Sound (s : Scratchpads) : Prop :=
  ∀ node,
    match s.pool.poolOf node with
    | none => s.pool.served s.live node = []
    | some p => p.Sound (s.pool.served s.live node)

theorem sound_of_serves (h : s.pool.Serves s.live) : s.Sound := by
  intro node
  have hnode := h node
  cases hp : s.pool.poolOf node with
  | none =>
      rw [hp] at hnode
      exact hnode
  | some p =>
      rw [hp] at hnode
      exact hnode.sound

/-- Whatever is constructed and destroyed in any order, as long as every pool is given a block. -/
theorem pools_sound
    (hblock : nodes ≤ 1 → poolSize ≠ 0 →
      MemoryPool.Given (MemoryPool.block hugePageSize poolSize hugePages 0 answers))
    (h : (machine hugePageSize nodes poolSize hugePages answers).ReachableIf
      (Given hugePageSize) s) : s.Sound := by
  refine sound_of_serves (h.invariant ?_ fun _ _ _ hs hgiven ht => step_serves hs hgiven ht)
  rintro _ rfl
  exact init_serves hblock

/-- Two pools, one of which has no room for the second request. -/
theorem pools_sound_nodes :
    ∃ s : Scratchpads, s.live.map VirtualMemory.range =
        [(83886080, 4194304), (8192, 33554432), (16777216, 2097152)] ∧ s.Sound := by
  have hfirst : MemoryPool.Given
      (MemoryPool.block 2097152 2 false 0 ⟨0, 0, 0, 16777216⟩) := by decide
  have hsecond : MemoryPool.Given
      (MemoryPool.block 2097152 2 false 1 ⟨0, 0, 0, 67109888⟩) := by decide
  refine ⟨_, ?_, @pools_sound 2097152 _ 2 4 false ⟨0, 0, 0, 0⟩ (by decide)
    (.step (e := .construct 4194304 false false 1 ⟨0, 0, 0, 0⟩ ⟨0, 0, 0, 67109888⟩)
      (.step (e := .construct 33554432 false false 0 ⟨0, 0, 0, 8192⟩ ⟨0, 0, 0, 16777216⟩)
        (.step (e := .construct 2097152 false false 0 ⟨0, 0, 0, 0⟩ ⟨0, 0, 0, 16777216⟩)
          (.init rfl) (fun _ _ => hfirst) rfl) (fun _ _ => hfirst) rfl)
      (fun _ _ => hsecond) rfl)⟩
  decide

/-- The block of the pool is not allocated: the first request is counted and not served, and the
second is given an address where there is no block. -/
theorem pools_null :
    ∃ s : Scratchpads, (machine 2097152 1 1 true ⟨0, 0, 0, 0⟩).Reachable s ∧
      (s.pool.poolOf 0).map MemoryPool.refs = some 2 ∧
      (s.pool.served s.live 0).map VirtualMemory.range = [(2097152, 2097152)] ∧ ¬ s.Sound := by
  refine ⟨_, .step (e := .construct 2097152 false false 0 ⟨0, 0, 0, 4096⟩ ⟨0, 0, 0, 0⟩)
    (.step (e := .construct 2097152 false false 0 ⟨0, 0, 0, 4096⟩ ⟨0, 0, 0, 0⟩) (.init rfl)
      trivial rfl) trivial rfl, by decide, by decide, fun h => ?_⟩
  exact absurd (h 0).refs (by decide)

end Scratchpads

end XLArig
