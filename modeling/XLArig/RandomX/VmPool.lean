import XLArig.Machine

/-!
# XLArig.RandomX.VmPool

`randomx_create_vm` and `randomx_destroy_vm`: where virtual machines are put in the pool of their
node.

The offset of a pool only grows, and wraps to its start once less than 4096 bytes are left.  What
is destroyed is not given back, so it takes many generations of machines to get there.  Up to
16 KiB of a machine may not fit then.

* `apart_of_reachable` — machines in use never overlap, wrapped or not;
* `placed_iff` — they lie inside the pool as long as each fits behind the offset.
-/

namespace XLArig

namespace VmPool

/-- What `randomx_create_vm` looks at of its flags. -/
structure Flags where
  fullMem : Bool
  jit : Bool
  hardAes : Bool
  deriving DecidableEq, Repr

inductive VmClass
  | InterpretedLightVmDefault
  | InterpretedVmDefault
  | CompiledLightVmDefault
  | CompiledVmDefault
  | InterpretedLightVmHardAes
  | InterpretedVmHardAes
  | CompiledLightVmHardAes
  | CompiledVmHardAes
  deriving DecidableEq, Repr

def Flags.vmClass : Flags → VmClass
  | ⟨false, false, false⟩ => .InterpretedLightVmDefault
  | ⟨true, false, false⟩ => .InterpretedVmDefault
  | ⟨false, true, false⟩ => .CompiledLightVmDefault
  | ⟨true, true, false⟩ => .CompiledVmDefault
  | ⟨false, false, true⟩ => .InterpretedLightVmHardAes
  | ⟨true, false, true⟩ => .InterpretedVmHardAes
  | ⟨false, true, true⟩ => .CompiledLightVmHardAes
  | ⟨true, true, true⟩ => .CompiledVmHardAes

def VM_POOL_SIZE : Nat := 2 * 1024 * 1024

/-- A machine in the pool of a node, with the bytes it takes from an offset on. -/
structure Vm where
  node : Nat
  start : Nat
  size : Nat
  deriving DecidableEq, Repr

/-- The pool that is used for a node. -/
def poolNode (node : Nat) : Nat := if node ≥ 64 then 0 else node

/-- `randomx_create_vm` with `vm_pool_offset`; `sizeOf` are the sizes of the classes, and `ok`
says whether nothing is thrown. -/
def randomxCreateVm (sizeOf : VmClass → Nat) (vmPoolOffset : Nat → Nat) (node : Nat)
    (flags : Flags) (ok : Bool) : Option Vm × (Nat → Nat) :=
  let node := poolNode node
  let p := vmPoolOffset node
  let vmSize := sizeOf flags.vmClass
  if ok then
    let offset := p + vmSize
    let offset := if offset + 4096 > VM_POOL_SIZE then 0 else offset
    (some ⟨node, p, vmSize⟩, Function.update vmPoolOffset node offset)
  else (none, vmPoolOffset)

/-- The offsets of the pools, the machines that were not destroyed, and how many bytes the
machines of the last generation on each node took. -/
structure Vms where
  vmPoolOffset : Nat → Nat
  live : List Vm
  generation : Nat → Nat

namespace Vms

def new : Vms := ⟨fun _ => 0, [], fun _ => 0⟩

inductive Event
  | create (node : Nat) (flags : Flags) (ok : Bool)
  | destroy (vm : Vm)
  | nextGeneration (node : Nat)
  deriving DecidableEq, Repr

/-- A generation takes at most half of its pool, and is destroyed before the next begins. -/
def step (sizeOf : VmClass → Nat) (s : Vms) : Event → Option Vms
  | .create node flags ok =>
      if s.generation (poolNode node) + sizeOf flags.vmClass ≤ VM_POOL_SIZE / 2 then
        match randomxCreateVm sizeOf s.vmPoolOffset node flags ok with
        | (some vm, vmPoolOffset) => some
            { vmPoolOffset
              live := vm :: s.live
              generation := Function.update s.generation vm.node (s.generation vm.node + vm.size) }
        | (none, vmPoolOffset) => some { s with vmPoolOffset }
      else none
  | .destroy vm => if vm ∈ s.live then some { s with live := s.live.erase vm } else none
  | .nextGeneration node =>
      if ∀ vm ∈ s.live, vm.node ≠ poolNode node then
        some { s with generation := Function.update s.generation (poolNode node) 0 }
      else none

def machine (sizeOf : VmClass → Nat) : Machine Vms Event where
  init s := s = new
  step := step sizeOf

/-! ## What a step does -/

variable {sizeOf : VmClass → Nat} {s s' : Vms} {e : Event} {node o g : Nat} {flags : Flags}
  {vm : Vm}

/-- The pools after a machine of `size` bytes was put at the offset of a node. -/
def put (s : Vms) (node size : Nat) : Vms where
  vmPoolOffset := Function.update s.vmPoolOffset node
    (if s.vmPoolOffset node + size + 4096 > VM_POOL_SIZE then 0 else s.vmPoolOffset node + size)
  live := ⟨node, s.vmPoolOffset node, size⟩ :: s.live
  generation := Function.update s.generation node (s.generation node + size)

theorem step_cases (h : step sizeOf s e = some s') :
    (∃ node flags, e = .create node flags true ∧
      s.generation (poolNode node) + sizeOf flags.vmClass ≤ VM_POOL_SIZE / 2 ∧
      s' = s.put (poolNode node) (sizeOf flags.vmClass)) ∨
    (∃ node flags, e = .create node flags false ∧ s' = s) ∨
    (∃ vm, e = .destroy vm ∧ s' = { s with live := s.live.erase vm }) ∨
    (∃ node, e = .nextGeneration node ∧ (∀ vm ∈ s.live, vm.node ≠ poolNode node) ∧
      s' = { s with generation := Function.update s.generation (poolNode node) 0 }) := by
  cases e with
  | create node flags ok =>
      simp only [step, Option.ite_none_right_eq_some] at h
      obtain ⟨hhalf, h⟩ := h
      cases ok with
      | true => exact .inl ⟨node, flags, rfl, hhalf, (Option.some.inj h).symm⟩
      | false => exact .inr (.inl ⟨node, flags, rfl, (Option.some.inj h).symm⟩)
  | destroy vm =>
      simp only [step, Option.ite_none_right_eq_some] at h
      exact .inr (.inr (.inl ⟨vm, rfl, (Option.some.inj h.2).symm⟩))
  | nextGeneration node =>
      simp only [step, Option.ite_none_right_eq_some] at h
      exact .inr (.inr (.inr ⟨node, rfl, h.1, (Option.some.inj h.2).symm⟩))

/-! ## Machines in use -/

/-- The bytes of two machines do not meet. -/
def Apart (a b : Vm) : Prop :=
  a.node = b.node → a.start + a.size ≤ b.start ∨ b.start + b.size ≤ a.start

/-- Where a machine of the last generation is, with `o` the offset after it and `g` the bytes of
the generation: among the last `g` before the offset, or, if the generation wrapped, among those
before the end of the pool that were put there first. -/
def Behind (o g : Nat) (vm : Vm) : Prop :=
  vm.start + vm.size ≤ o ∧ o ≤ vm.start + g ∨
    o ≤ g ∧ VM_POOL_SIZE + o < vm.start + g + 4096

/-- Half a pool is too little to reach from the end of the pool to what the generation put there
first. -/
theorem Behind.put {size : Nat} (h : Behind o g vm) (hhalf : g + size ≤ VM_POOL_SIZE / 2) :
    Behind (if o + size + 4096 > VM_POOL_SIZE then 0 else o + size) (g + size) vm ∧
      (vm.start + vm.size ≤ o ∨ o + size ≤ vm.start) := by
  unfold Behind VM_POOL_SIZE at *
  split <;> omega

/-- The machine that is put at the offset. -/
theorem behind_new {size : Nat} :
    Behind (if o + size + 4096 > VM_POOL_SIZE then 0 else o + size) (g + size)
      ⟨node, o, size⟩ := by
  unfold Behind VM_POOL_SIZE
  dsimp only
  split <;> omega

structure Inv (s : Vms) : Prop where
  behind : ∀ vm ∈ s.live, Behind (s.vmPoolOffset vm.node) (s.generation vm.node) vm
  apart : s.live.Pairwise Apart
  offset : ∀ node, s.vmPoolOffset node + 4096 ≤ VM_POOL_SIZE

theorem inv_new : Inv new where
  behind := by simp [new]
  apart := .nil
  offset _ := by simp [new, VM_POOL_SIZE]

theorem Inv.put (h : Inv s) {size : Nat}
    (hhalf : s.generation node + size ≤ VM_POOL_SIZE / 2) : Inv (s.put node size) where
  behind := by
    refine List.forall_mem_cons.mpr ⟨?_, fun vm hvm => ?_⟩
    · simp only [Vms.put, Function.update_self]
      exact behind_new
    · by_cases hnode : vm.node = node
      · have hbehind := h.behind vm hvm
        rw [hnode] at hbehind
        simp only [Vms.put, hnode, Function.update_self]
        exact (hbehind.put hhalf).1
      · simp only [Vms.put, Function.update_of_ne hnode]
        exact h.behind vm hvm
  apart := by
    refine List.pairwise_cons.mpr ⟨fun vm hvm hnode => ?_, h.apart⟩
    have hbehind := h.behind vm hvm
    rw [← hnode] at hbehind
    exact (hbehind.put hhalf).2.symm
  offset other := by
    have hold := h.offset other
    by_cases hnode : other = node
    · subst hnode
      simp only [Vms.put, Function.update_self]
      split
      · decide
      · omega
    · simp only [Vms.put, Function.update_of_ne hnode]
      exact hold

theorem Inv.step (hs : Inv s) (h : step sizeOf s e = some s') : Inv s' := by
  obtain ⟨node, flags, -, hhalf, rfl⟩ | ⟨node, flags, -, rfl⟩ | ⟨vm, -, rfl⟩ |
    ⟨node, -, hnone, rfl⟩ := step_cases h
  · exact hs.put hhalf
  · exact hs
  · exact ⟨fun other hother => hs.behind other (List.mem_of_mem_erase hother),
      hs.apart.sublist List.erase_sublist, hs.offset⟩
  · refine ⟨fun vm hvm => ?_, hs.apart, hs.offset⟩
    simp only [Function.update_of_ne (hnone vm hvm)]
    exact hs.behind vm hvm

theorem inv_of_reachable (h : (machine sizeOf).Reachable s) : Inv s := by
  refine h.invariant ?_ fun _ _ _ hs _ ht => hs.step ht
  rintro _ rfl
  exact inv_new

/-- Machines in use do not overlap, whether they fit in the pool or not. -/
theorem apart_of_reachable (h : (machine sizeOf).Reachable s) : s.live.Pairwise Apart :=
  (inv_of_reachable h).apart

/-! ## Machines inside the pool -/

/-- Every machine in use lies inside its pool and apart from the others. -/
def Placed (s : Vms) : Prop :=
  (∀ vm ∈ s.live, vm.start + vm.size ≤ VM_POOL_SIZE) ∧ s.live.Pairwise Apart

/-- A machine is created where as many bytes are left behind the offset as its class needs. -/
def Fits (sizeOf : VmClass → Nat) (s : Vms) : Event → Prop
  | .create node flags true =>
      s.vmPoolOffset (poolNode node) + sizeOf flags.vmClass ≤ VM_POOL_SIZE
  | _ => True

theorem placed_step (hs : Inv s) (hplaced : Placed s) (h : step sizeOf s e = some s') :
    Placed s' ↔ Fits sizeOf s e := by
  have hinv := hs.step h
  obtain ⟨node, flags, rfl, -, rfl⟩ | ⟨node, flags, rfl, rfl⟩ | ⟨vm, rfl, rfl⟩ |
    ⟨node, rfl, -, rfl⟩ := step_cases h
  · have hmem : Placed (s.put (poolNode node) (sizeOf flags.vmClass)) ↔
        ∀ vm ∈ (s.put (poolNode node) (sizeOf flags.vmClass)).live,
          vm.start + vm.size ≤ VM_POOL_SIZE := and_iff_left hinv.apart
    rw [hmem, Vms.put, List.forall_mem_cons, and_iff_left hplaced.1]
    rfl
  · exact iff_of_true hplaced trivial
  · exact iff_of_true ⟨fun other hother => hplaced.1 other (List.mem_of_mem_erase hother),
      hinv.apart⟩ trivial
  · exact iff_of_true ⟨hplaced.1, hinv.apart⟩ trivial

/-- All along a run every machine in use lies inside its pool and apart from the others just
when each was created where it fits. -/
theorem placed_iff (sizeOf : VmClass → Nat) (es : List Event)
    (h : (machine sizeOf).run new es = some s') :
    (machine sizeOf).Always Placed new es ↔ (machine sizeOf).Meets (Fits sizeOf) new es := by
  have hstep : ∀ s e s', Inv s ∧ Placed s → (machine sizeOf).step s e = some s' →
      (Placed s' ↔ Fits sizeOf s e) ∧ (Fits sizeOf s e → Inv s' ∧ Placed s') := by
    intro s e s' ⟨hs, hplaced⟩ ht
    have hiff := placed_step hs hplaced ht
    exact ⟨hiff, fun hfits => ⟨hs.step ht, hiff.mpr hfits⟩⟩
  exact Machine.always_iff_of_invariant (fun _ hs => hs.2) hstep h
    ⟨inv_new, by simp [Placed, new]⟩

/-- Classes of 4096 bytes at most always fit. -/
theorem fits_of_le (hsize : ∀ c, sizeOf c ≤ 4096) (h : (machine sizeOf).Reachable s) (e : Event) :
    Fits sizeOf s e := by
  unfold Fits
  split
  · next node flags =>
      have hoffset := (inv_of_reachable h).offset (poolNode node)
      have := hsize flags.vmClass
      omega
  · trivial

theorem placed_iff_two :
    (machine fun _ => 10816).Always Placed new
        [.create 0 ⟨true, false, true⟩ true, .create 70 ⟨true, false, true⟩ true] ↔
      (machine fun _ => 10816).Meets (Fits fun _ => 10816) new
        [.create 0 ⟨true, false, true⟩ true, .create 70 ⟨true, false, true⟩ true] :=
  placed_iff (fun _ => 10816) _ rfl

/-- Generations of one machine on node 0, each destroyed at once. -/
def generations (size : Nat) : Nat → List Event
  | 0 => []
  | n + 1 => generations size n ++
      [.nextGeneration 0, .create 0 ⟨true, false, true⟩ true, .destroy ⟨0, n * size, size⟩]

/-- One machine after the other is put behind the last. -/
theorem run_generations (size n : Nat) (hhalf : size ≤ VM_POOL_SIZE / 2)
    (hfit : n * size + 4096 ≤ VM_POOL_SIZE) :
    ∃ generation, (machine fun _ => size).run new (generations size n) =
      some ⟨Function.update (fun _ => 0) 0 (n * size), [], generation⟩ := by
  induction n with
  | zero => exact ⟨fun _ => 0, by simp [generations, new, Machine.run]⟩
  | succ n ih =>
      rw [Nat.succ_mul] at hfit ⊢
      obtain ⟨generation, hrun⟩ := ih (by omega)
      have hleft : ¬ n * size + size + 4096 > VM_POOL_SIZE := by omega
      refine ⟨Function.update (Function.update generation 0 0) 0 size, ?_⟩
      rw [generations, Machine.run_append, hrun, Option.bind_some]
      simp [Machine.run, machine, step, randomxCreateVm, poolNode, hhalf, hleft]

/-- 193 machines of 10816 bytes leave more than 4096 bytes, and too few for another. -/
theorem straddles : ∃ s, (machine fun _ => 10816).Reachable s ∧ ¬ Placed s := by
  obtain ⟨generation, hlast⟩ := run_generations 10816 193 (by decide) (by decide)
  have hrun : ((machine fun _ => 10816).run new (generations 10816 193 ++
      [.nextGeneration 0, .create 0 ⟨true, false, true⟩ true])).any
        (fun s => decide (s.live = [⟨0, 2087488, 10816⟩])) = true := by
    rw [Machine.run_append, hlast, Option.bind_some]
    simp [Machine.run, machine, step, randomxCreateVm, poolNode, VM_POOL_SIZE]
  obtain ⟨s, hs, hlive⟩ := Machine.ReachableIf.exists_of_run rfl (Machine.meets_true _ _) hrun
  refine ⟨s, hs, fun hplaced => ?_⟩
  have hend := hplaced.1 ⟨0, 2087488, 10816⟩ (by simp [of_decide_eq_true hlive])
  exact absurd hend (by decide)

end Vms

end VmPool

end XLArig
