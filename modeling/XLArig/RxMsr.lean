import XLArig.CpuThreads
import XLArig.Machine
import XLArig.RxConfig

/-!
# XLArig.RxMsr

`hw/msr/Msr` and `crypto/rx/RxMsr`: registers of the processor are saved, written with the items
of a preset, and written back later.

What was saved is kept in a list that is never cleared, and is written back as a whole.  `Guarded`
says in which runs that gives every register what it held before the first of them was written.
-/

namespace XLArig

/-! ## The registers -/

/-- What `RxMsr` asks of the processor: its units, of which there is a first one, and whether the
L3 cache can be divided among them. -/
structure MsrCpu where
  first : Nat
  others : List Nat
  hasCatL3 : Bool

def MsrCpu.units (cpu : MsrCpu) : List Nat := cpu.first :: cpu.others

/-- An access to a register. -/
inductive MsrAccess
  | read (unit : Nat) (reg : UInt32)
  | write (unit : Nat) (reg : UInt32) (value : UInt64)
  deriving DecidableEq

/-- What the system answers in a call: whether there is a kernel module, and which of its accesses,
which are numbered, go through. -/
structure MsrEnv where
  available : Bool
  ok : Nat → MsrAccess → Bool

/-- A write that went through; `old` is what the register held before. -/
structure MsrWrite where
  unit : Nat
  reg : UInt32
  mask : UInt64
  old : UInt64
  value : UInt64
  deriving DecidableEq

/-- Only bits inside the mask were changed. -/
def MsrWrite.Inside (w : MsrWrite) : Prop := (w.old ^^^ w.value) &&& ~~~w.mask = 0

instance (w : MsrWrite) : Decidable w.Inside := inferInstanceAs (Decidable (_ = _))

/-- The registers of each unit, the number of the next access, and the writes that went through,
the newest first. -/
structure Msr where
  registers : Nat → UInt32 → UInt64
  accesses : Nat
  log : List MsrWrite

/-- `MsrItem::maskedValue`. -/
def MsrItem.maskedValue (old new mask : UInt64) : UInt64 := (new &&& mask) ||| (old &&& ~~~mask)

namespace Msr

variable (cpu : MsrCpu) (env : MsrEnv)

/-- The unit that `msr_open` opens. -/
def opened (unit : Int) : Nat := if unit < 0 then cpu.first else unit.toNat

def rdmsr (m : Msr) (reg : UInt32) (unit : Int) : Option UInt64 × Msr :=
  let unit := opened cpu unit
  (if env.ok m.accesses (.read unit reg) then some (m.registers unit reg) else none,
    { m with accesses := m.accesses + 1 })

def wrmsr (m : Msr) (reg : UInt32) (value : UInt64) (unit : Int) : Bool × Msr :=
  let unit := opened cpu unit
  let m' := { m with accesses := m.accesses + 1 }
  if env.ok m.accesses (.write unit reg value) then
    (true, { m' with
      registers := Function.update m.registers unit (Function.update (m.registers unit) reg value) })
  else (false, m')

/-- `Msr::write`, of an item.  Where the register cannot be read, the value is written as it is. -/
def write (m : Msr) (item : MsrItem) (unit : Int) : Bool × Msr :=
  let (old, m) :=
    if item.mask ≠ MsrItem.kNoMask then m.rdmsr cpu env item.reg unit else (none, m)
  let value :=
    match old with
    | some old => MsrItem.maskedValue old item.value item.mask
    | none => item.value
  let held := m.registers (opened cpu unit) item.reg
  match m.wrmsr cpu env item.reg value unit with
  | (true, m) =>
      (true, { m with log := ⟨opened cpu unit, item.reg, item.mask, held, value⟩ :: m.log })
  | (false, m) => (false, m)

/-- `Msr::read`, of the first unit. -/
def read (m : Msr) (reg : UInt32) : MsrItem × Msr :=
  match m.rdmsr cpu env reg (-1) with
  | (some value, m) => (⟨reg, value, MsrItem.kNoMask⟩, m)
  | (none, m) => (.empty, m)

end Msr

/-! ## Presets -/

/-- `ICpuInfo::MsrMod`, of the processor. -/
inductive MsrMod
  | MSR_MOD_NONE
  | MSR_MOD_RYZEN_17H
  | MSR_MOD_RYZEN_19H
  | MSR_MOD_INTEL
  deriving DecidableEq, Repr

/-- `msrPresets`. -/
def MsrMod.preset : MsrMod → List MsrItem
  | MSR_MOD_NONE => []
  | MSR_MOD_RYZEN_17H =>
      [⟨0xC0011020, 0, MsrItem.kNoMask⟩, ⟨0xC0011021, 0x40, ~~~0x20⟩,
        ⟨0xC0011022, 0x1510000, MsrItem.kNoMask⟩, ⟨0xC001102b, 0x2000cc16, MsrItem.kNoMask⟩]
  | MSR_MOD_RYZEN_19H =>
      [⟨0xC0011020, 0x0004480000000000, MsrItem.kNoMask⟩,
        ⟨0xC0011021, 0x001c000200000040, ~~~0x20⟩,
        ⟨0xC0011022, 0xc000000401500000, MsrItem.kNoMask⟩,
        ⟨0xC001102b, 0x2000cc14, MsrItem.kNoMask⟩]
  | MSR_MOD_INTEL => [⟨0x1a4, 0xf, MsrItem.kNoMask⟩]

/-- `RxConfig::msrPreset()`, on a processor with the preset `mod`. -/
def RxConfig.chosenPreset (c : RxConfig) (mod : MsrMod) : List MsrItem :=
  if !c.wrmsr then MsrMod.MSR_MOD_NONE.preset
  else if c.msrPreset ≠ [] then c.msrPreset
  else mod.preset

/-! ## `RxMsr` -/

/-- The static members of `RxMsr`, `items`, and the registers.  `found` is what the registers held
at first, in all units, and `restored` says that the last call was one of `destroy` that did not
fail. -/
structure RxMsr where
  cacheQoS : Bool
  enabled : Bool
  initialized : Bool
  items : List MsrItem
  msr : Msr
  found : UInt32 → UInt64
  restored : Bool

namespace RxMsr

/-- The class of service of a unit. -/
def kPqrAssoc : UInt32 := 0xC8F

/-- The cache that class 1 may use. -/
def kL3Mask1 : UInt32 := 0xC91

section

variable (cpu : MsrCpu) (env : MsrEnv)

/-- The registers of a preset are read; nothing is kept once one could not be. -/
def save : (preset items : List MsrItem) → Msr → Option (List MsrItem) × Msr
  | [], items, m => (some items, m)
  | i :: preset, items, m =>
      let (item, m) := m.read cpu env i.reg
      if item.isValid then save preset (items ++ [item]) m else (none, m)

/-- Whether cache QoS is off after all, and the units that keep the full cache. -/
def fullCache : List CpuThread → Bool × List Nat
  | [] => (false, [])
  | t :: threads =>
      let affinity := t.affinity.bmod (2 ^ 32)
      if affinity < 0 ∨ affinity.toNat ∉ cpu.units then (true, [])
      else
        let (disabled, units) := fullCache threads
        (disabled, affinity.toNat :: units)

/-- The items are written to a unit. -/
def writeItems (unit : Nat) : List MsrItem → Msr → Bool × Msr
  | [], m => (true, m)
  | item :: preset, m =>
      match m.write cpu env item unit with
      | (true, m) => writeItems unit preset m
      | (false, m) => (false, m)

/-- The class of service of a unit is written, and what the class may use. -/
def writeQoS (full : Bool) (unit : Nat) (m : Msr) : Bool × Msr :=
  if full then m.write cpu env ⟨kPqrAssoc, 0, MsrItem.kNoMask⟩ unit
  else
    match m.write cpu env ⟨kL3Mask1, 0, MsrItem.kNoMask⟩ unit with
    | (true, m) => m.write cpu env ⟨kPqrAssoc, 0x100000000, MsrItem.kNoMask⟩ unit
    | (false, m) =>
        match m.write cpu env ⟨kL3Mask1, 1, MsrItem.kNoMask⟩ unit with
        | (true, m) => m.write cpu env ⟨kPqrAssoc, 0x100000000, MsrItem.kNoMask⟩ unit
        | (false, m) => (false, m)

/-- The function that `wrmsr` hands to `Msr::write`. -/
def writeUnit (preset : List MsrItem) (cacheQoS : Bool) (full : Nat → Bool) (unit : Nat) (m : Msr) :
    Bool × Msr :=
  match writeItems cpu env unit preset m with
  | (true, m) => if !cacheQoS then (true, m) else writeQoS cpu env (full unit) unit m
  | (false, m) => (false, m)

/-- `Msr::write`, of a function. -/
def writeUnits (callback : Nat → Msr → Bool × Msr) : List Nat → Msr → Bool × Msr
  | [], m => (true, m)
  | unit :: units, m =>
      match callback unit m with
      | (true, m) => writeUnits callback units m
      | (false, m) => (false, m)

/-- Whether a unit keeps the full cache. -/
def isFull (threads : List CpuThread) (unit : Nat) : Bool :=
  let (disabled, units) := fullCache cpu threads
  threads.isEmpty || disabled || units.contains unit

/-- `wrmsr`. -/
def wrmsr (s : RxMsr) (preset : List MsrItem) (threads : List CpuThread) (cacheQoS save : Bool) :
    Bool × RxMsr :=
  if !env.available then (false, s)
  else
    let (saved, m) := if save then RxMsr.save cpu env preset s.items s.msr else (some s.items, s.msr)
    match saved with
    | none => (false, { s with items := [], msr := m })
    | some items =>
        let (ok, m) := writeUnits (writeUnit cpu env preset cacheQoS (isFull cpu threads)) cpu.units m
        (ok, { s with items, msr := m })

/-- `RxMsr::init`. -/
def init (mod : MsrMod) (s : RxMsr) (config : RxConfig) (threads : List CpuThread) : RxMsr :=
  let s := { s with restored := false }
  if s.initialized then s
  else
    let s := { s with initialized := true, enabled := false }
    let preset := config.chosenPreset mod
    if preset.isEmpty then s
    else
      let cacheQoS := config.cacheQoS && cpu.hasCatL3
      let (enabled, s) := { s with cacheQoS }.wrmsr cpu env preset threads cacheQoS config.rdmsr
      { s with enabled }

/-- `RxMsr::destroy`. -/
def destroy (s : RxMsr) : RxMsr :=
  if !s.initialized then { s with restored := true }
  else
    let s := { s with initialized := false, enabled := false }
    if s.items.isEmpty then { s with restored := true }
    else
      let (restored, s) := s.wrmsr cpu env s.items [] s.cacheQoS false
      { s with restored }

end

/-! ## The calls -/

inductive Event
  | init (config : RxConfig) (threads : List CpuThread) (env : MsrEnv)
  | destroy (env : MsrEnv)

/-- No call was made yet, and the registers hold the same in all units. -/
def new (found : UInt32 → UInt64) : RxMsr where
  cacheQoS := false
  enabled := false
  initialized := false
  items := []
  msr := ⟨fun _ => found, 0, []⟩
  found := found
  restored := false

def machine (cpu : MsrCpu) (mod : MsrMod) : Machine RxMsr Event where
  init s := ∃ found, s = new found
  step s
    | .init config threads env => some (init cpu env mod s config threads)
    | .destroy env => some (s.destroy cpu env)

/-! ## When the registers are given back -/

variable {cpu : MsrCpu} {env : MsrEnv} {mod : MsrMod}

/-- A register holds what was found, in all units. -/
def AsFound (cpu : MsrCpu) (s : RxMsr) (reg : UInt32) : Prop :=
  ∀ unit ∈ cpu.units, s.msr.registers unit reg = s.found reg

/-- The registers of a preset can be read, from access `n` on. -/
def Readable (cpu : MsrCpu) (env : MsrEnv) : List MsrItem → Nat → Prop
  | [], _ => True
  | i :: preset, n =>
      env.ok n (.read cpu.first i.reg) = true ∧ i.reg > 0 ∧ Readable cpu env preset (n + 1)

instance decidableReadable (cpu : MsrCpu) (env : MsrEnv) :
    (preset : List MsrItem) → (n : Nat) → Decidable (Readable cpu env preset n)
  | [], _ => inferInstanceAs (Decidable True)
  | _ :: preset, n =>
      have := decidableReadable cpu env preset (n + 1)
      inferInstanceAs (Decidable (_ ∧ _ ∧ _))

/-- A masked item is not written to a register that could not be read. -/
def Masked (cpu : MsrCpu) (env : MsrEnv) (item : MsrItem) : Prop :=
  item.mask ≠ MsrItem.kNoMask → ∀ unit ∈ cpu.units, ∀ n,
    env.ok n (.read unit item.reg) = true ∨ env.ok (n + 1) (.write unit item.reg item.value) = false

/-- What `init` finds when it sets `preset`, with cache QoS or without. -/
structure Kept (cpu : MsrCpu) (env : MsrEnv) (s : RxMsr) (preset : List MsrItem)
    (threads : List CpuThread) (cacheQoS : Bool) : Prop where
  masked : env.available = true → ∀ item ∈ preset, Masked cpu env item
  /-- What is saved is what was found. -/
  saved : env.available = true → Readable cpu env preset s.msr.accesses →
    ∀ item ∈ preset, s.msr.registers cpu.first item.reg = s.found item.reg
  /-- Nothing is to be written back when what was saved is forgotten. -/
  forgotten : env.available = true → ¬ Readable cpu env preset s.msr.accesses →
    ∀ reg, AsFound cpu s reg
  /-- The class of service was 0. -/
  class0 : cacheQoS = true → s.found kPqrAssoc = 0
  /-- The cache of class 1 is not written, or saved. -/
  full : env.available = true → cacheQoS = true →
    (∀ unit ∈ cpu.units, isFull cpu threads unit = true) ∨
      kL3Mask1 ∈ (s.items ++ preset).map MsrItem.reg
  /-- No class of service is left over from an earlier call. -/
  off : cacheQoS = false → s.cacheQoS = true →
    AsFound cpu s kPqrAssoc ∨
      kPqrAssoc ∈ (s.items ++ if env.available then preset else []).map MsrItem.reg

/-- `init` saves what was found, and reads what it masks; `destroy` is not called once more after
it failed. -/
def Guarded (cpu : MsrCpu) (mod : MsrMod) (s : RxMsr) : Event → Prop
  | .init config threads env =>
      config.rdmsr = true ∧ (s.initialized = false → config.chosenPreset mod ≠ [] →
        Kept cpu env s (config.chosenPreset mod) threads (config.cacheQoS && cpu.hasCatL3))
  | .destroy _ => s.initialized = true ∨ ∀ reg, AsFound cpu s reg

/-! ## A write -/

theorem maskedValue_inside (old new mask : UInt64) :
    (old ^^^ MsrItem.maskedValue old new mask) &&& ~~~mask = 0 := by
  have h : (old ^^^ ((new &&& mask) ||| (old &&& ~~~mask))) &&& ~~~mask = 0 := by
    apply UInt64.eq_of_toBitVec_eq
    simp only [UInt64.toBitVec_and, UInt64.toBitVec_xor, UInt64.toBitVec_or, UInt64.toBitVec_not]
    ext i
    simp only [BitVec.getElem_and, BitVec.getElem_xor, BitVec.getElem_or, BitVec.getElem_not,
      UInt64.toBitVec_zero, BitVec.getElem_zero]
    cases old.toBitVec[i] <;> cases new.toBitVec[i] <;> cases mask.toBitVec[i] <;> rfl
  exact h

@[simp] theorem opened_natCast (unit : Nat) : Msr.opened cpu unit = unit := by
  simp [Msr.opened]

/-- What a write of an item does: nothing, or one register gets a value, which is the item's where
there is no mask, and is inside the mask where the register could be read. -/
theorem write_cases (cpu : MsrCpu) (env : MsrEnv) (m : Msr) (item : MsrItem) (unit : Nat) :
    ((m.write cpu env item unit).1 = false ∧
      (m.write cpu env item unit).2.registers = m.registers ∧
      (m.write cpu env item unit).2.log = m.log) ∨
    ∃ value, (m.write cpu env item unit).1 = true ∧
      (m.write cpu env item unit).2.registers =
        Function.update m.registers unit (Function.update (m.registers unit) item.reg value) ∧
      (m.write cpu env item unit).2.log =
        ⟨unit, item.reg, item.mask, m.registers unit item.reg, value⟩ :: m.log ∧
      (item.mask = MsrItem.kNoMask → value = item.value) ∧
      (Masked cpu env item → unit ∈ cpu.units →
        (m.registers unit item.reg ^^^ value) &&& ~~~item.mask = 0) := by
  by_cases hmask : item.mask = MsrItem.kNoMask
  · by_cases hok : env.ok m.accesses (.write unit item.reg item.value) = true
    · have hall : ~~~item.mask = 0 := by
        rw [hmask]
        decide
      refine .inr ⟨item.value, ?_, ?_, ?_, fun _ => rfl, fun _ _ => by simp [hall]⟩
      all_goals simp [Msr.write, Msr.wrmsr, hmask, hok]
    · refine .inl ?_
      simp [Msr.write, Msr.wrmsr, hmask, hok]
  · by_cases hread : env.ok m.accesses (.read unit item.reg) = true
    · by_cases hok : env.ok (m.accesses + 1) (.write unit item.reg
          (MsrItem.maskedValue (m.registers unit item.reg) item.value item.mask)) = true
      · refine .inr ⟨MsrItem.maskedValue (m.registers unit item.reg) item.value item.mask, ?_, ?_, ?_,
          fun h => absurd h hmask, fun _ _ => maskedValue_inside ..⟩
        all_goals simp [Msr.write, Msr.rdmsr, Msr.wrmsr, hmask, hread, hok]
      · refine .inl ?_
        simp [Msr.write, Msr.rdmsr, Msr.wrmsr, hmask, hread, hok]
    · by_cases hok : env.ok (m.accesses + 1) (.write unit item.reg item.value) = true
      · refine .inr ⟨item.value, ?_, ?_, ?_, fun h => absurd h hmask, fun hmasked hunit => ?_⟩
        all_goals try simp [Msr.write, Msr.rdmsr, Msr.wrmsr, hmask, hread, hok]
        have := hmasked hmask unit hunit m.accesses
        simp [hread, hok] at this
      · refine .inl ?_
        simp [Msr.write, Msr.rdmsr, Msr.wrmsr, hmask, hread, hok]

/-! ## The loops -/

theorem writeItems_rule {P : Msr → Prop} {unit : Nat} {preset : List MsrItem} {m : Msr}
    (hstep : ∀ item ∈ preset, ∀ m, P m → P (m.write cpu env item unit).2) (h : P m) :
    P (writeItems cpu env unit preset m).2 := by
  induction preset generalizing m with
  | nil => exact h
  | cons item preset ih =>
      have hitem := hstep item List.mem_cons_self m h
      simp only [writeItems]
      split
      · next m' heq =>
        rw [heq] at hitem
        exact ih (fun i hi => hstep i (List.mem_cons_of_mem _ hi)) hitem
      · next m' heq =>
        rw [heq] at hitem
        exact hitem

/-- The registers of cache QoS: the cache of class 1 only for a unit that does not keep the full
one. -/
theorem writeQoS_rule {P : Msr → Prop} {full : Bool} {unit : Nat} {m : Msr}
    (hstep : ∀ item : MsrItem, item.mask = MsrItem.kNoMask →
      item = ⟨kPqrAssoc, 0, MsrItem.kNoMask⟩ ∨
        full = false ∧ (item.reg = kPqrAssoc ∨ item.reg = kL3Mask1) →
      ∀ m, P m → P (m.write cpu env item unit).2) (h : P m) :
    P (writeQoS cpu env full unit m).2 := by
  cases full with
  | true => exact hstep _ rfl (.inl rfl) m h
  | false =>
      have hpqr : ∀ m, P m →
          P (m.write cpu env ⟨kPqrAssoc, 0x100000000, MsrItem.kNoMask⟩ unit).2 :=
        hstep _ rfl (.inr ⟨rfl, .inl rfl⟩)
      have hl3 : ∀ value m, P m →
          P (m.write cpu env ⟨kL3Mask1, value, MsrItem.kNoMask⟩ unit).2 :=
        fun value => hstep _ rfl (.inr ⟨rfl, .inr rfl⟩)
      have hfirst := hl3 0 m h
      simp only [writeQoS, Bool.false_eq_true, ↓reduceIte]
      split
      · next m' heq =>
        rw [heq] at hfirst
        exact hpqr m' hfirst
      · next m' heq =>
        rw [heq] at hfirst
        have hsecond := hl3 1 m' hfirst
        split
        · next m'' heq' =>
          rw [heq'] at hsecond
          exact hpqr m'' hsecond
        · next m'' heq' =>
          rw [heq'] at hsecond
          exact hsecond

theorem writeUnits_rule {P : Msr → Prop} {callback : Nat → Msr → Bool × Msr} {units : List Nat}
    {m : Msr} (hstep : ∀ unit ∈ units, ∀ m, P m → P (callback unit m).2) (h : P m) :
    P (writeUnits callback units m).2 := by
  induction units generalizing m with
  | nil => exact h
  | cons unit units ih =>
      have hunit := hstep unit List.mem_cons_self m h
      simp only [writeUnits]
      split
      · next m' heq =>
        rw [heq] at hunit
        exact ih (fun i hi => hstep i (List.mem_cons_of_mem _ hi)) hunit
      · next m' heq =>
        rw [heq] at hunit
        exact hunit

/-- What a whole call writes: the items, and with cache QoS its registers. -/
theorem writeUnit_rule {P : Msr → Prop} {preset : List MsrItem} {cacheQoS : Bool}
    {full : Nat → Bool} {unit : Nat} {m : Msr}
    (hitems : ∀ item ∈ preset, ∀ m, P m → P (m.write cpu env item unit).2)
    (hqos : cacheQoS = true → ∀ item : MsrItem, item.mask = MsrItem.kNoMask →
      item = ⟨kPqrAssoc, 0, MsrItem.kNoMask⟩ ∨
        full unit = false ∧ (item.reg = kPqrAssoc ∨ item.reg = kL3Mask1) →
      ∀ m, P m → P (m.write cpu env item unit).2) (h : P m) :
    P (writeUnit cpu env preset cacheQoS full unit m).2 := by
  have hpreset : P (writeItems cpu env unit preset m).2 := writeItems_rule hitems h
  simp only [writeUnit]
  split
  · next m' heq =>
    rw [heq] at hpreset
    cases cacheQoS with
    | false => exact hpreset
    | true => exact writeQoS_rule (hqos rfl) hpreset
  · next m' heq =>
    rw [heq] at hpreset
    exact hpreset

/-- What the callback keeps in all units, and brings about in its own when it succeeds, is so in
all of them when all succeed. -/
theorem writeUnits_establish {P : Nat → Msr → Prop} {callback : Nat → Msr → Bool × Msr}
    {units : List Nat} {m : Msr} (hkeep : ∀ v unit m, P v m → P v (callback unit m).2)
    (hest : ∀ unit m, (callback unit m).1 = true → P unit (callback unit m).2)
    (h : (writeUnits callback units m).1 = true) :
    ∀ v ∈ units, P v (writeUnits callback units m).2 := by
  induction units generalizing m with
  | nil => simp
  | cons unit units ih =>
      simp only [writeUnits] at h ⊢
      split at h
      · next m' heq =>
        intro v hv
        rcases List.mem_cons.mp hv with rfl | hv
        · have hown : P v m' := by
            have := hest v m
            rw [heq] at this
            exact this rfl
          exact writeUnits_rule (fun unit _ m => hkeep v unit m) hown
        · exact ih h v hv
      · contradiction

/-! ## What is kept -/

/-- A register that is written back by `destroy`. -/
def Undone (items : List MsrItem) (cacheQoS : Bool) (reg : UInt32) : Prop :=
  reg ∈ items.map MsrItem.reg ∨ (items ≠ [] ∧ cacheQoS = true ∧ reg = kPqrAssoc)

/-- The writes are inside their masks, and what is not written back holds what was found. -/
def Safe (cpu : MsrCpu) (found : UInt32 → UInt64) (items : List MsrItem) (cacheQoS : Bool)
    (m : Msr) : Prop :=
  (∀ w ∈ m.log, w.Inside) ∧
    ∀ reg, Undone items cacheQoS reg ∨ ∀ unit ∈ cpu.units, m.registers unit reg = found reg

/-- What was saved is what was found, and what is not saved was not changed. -/
structure Invariant (cpu : MsrCpu) (s : RxMsr) : Prop where
  saved : ∀ i ∈ s.items, i.mask = MsrItem.kNoMask ∧ i.value = s.found i.reg
  class0 : s.cacheQoS = true → s.found kPqrAssoc = 0
  safe : Safe cpu s.found s.items s.cacheQoS s.msr
  restored : s.restored = true → ∀ reg, AsFound cpu s reg

theorem Safe.write {found : UInt32 → UInt64} {items : List MsrItem} {cacheQoS : Bool} {m : Msr}
    {item : MsrItem} {unit : Nat} (hunit : unit ∈ cpu.units) (hmasked : Masked cpu env item)
    (hitem : Undone items cacheQoS item.reg) (h : Safe cpu found items cacheQoS m) :
    Safe cpu found items cacheQoS (m.write cpu env item unit).2 := by
  rcases write_cases cpu env m item unit with
    ⟨-, hregs, hlog⟩ | ⟨value, -, hregs, hlog, -, hinside⟩
  · rw [Safe, hregs, hlog]
    exact h
  · rw [Safe, hregs, hlog]
    refine ⟨?_, fun reg => ?_⟩
    · intro w hw
      rcases List.mem_cons.mp hw with rfl | hw
      · exact hinside hmasked hunit
      · exact h.1 w hw
    · rcases h.2 reg with hreg | hreg
      · exact .inl hreg
      · by_cases heq : reg = item.reg
        · exact .inl (heq ▸ hitem)
        · refine .inr fun v hv => ?_
          by_cases hu : v = unit
          · subst hu
            simp [Function.update_of_ne heq, hreg v hv]
          · simp [Function.update_of_ne hu, hreg v hv]

theorem masked_of_noMask {item : MsrItem} (h : item.mask = MsrItem.kNoMask) :
    Masked cpu env item := fun hmask => absurd h hmask

/-- A call that writes items which are written back later. -/
theorem Safe.writeUnits {found : UInt32 → UInt64} {items preset : List MsrItem} {cacheQoS : Bool}
    {full : Nat → Bool} {m : Msr} (hne : items ≠ [])
    (hmasked : ∀ item ∈ preset, Masked cpu env item)
    (hundone : ∀ item ∈ preset, item.reg ∈ items.map MsrItem.reg)
    (hfull : cacheQoS = true → (∀ unit ∈ cpu.units, full unit = true) ∨
      kL3Mask1 ∈ items.map MsrItem.reg)
    (h : Safe cpu found items cacheQoS m) :
    Safe cpu found items cacheQoS
      (RxMsr.writeUnits (writeUnit cpu env preset cacheQoS full) cpu.units m).2 := by
  refine writeUnits_rule (fun unit hunit m hm => ?_) h
  refine writeUnit_rule (fun item hitem m hm => ?_) (fun hqos item hmask hitem m hm => ?_) hm
  · exact hm.write hunit (hmasked item hitem) (.inl (hundone item hitem))
  · refine hm.write hunit (masked_of_noMask hmask) ?_
    rcases hitem with rfl | ⟨hnot, hreg | hreg⟩
    · exact .inr ⟨hne, hqos, rfl⟩
    · exact .inr ⟨hne, hqos, hreg⟩
    · rcases hfull hqos with hall | hsaved
      · simp [hall unit hunit] at hnot
      · exact .inl (hreg ▸ hsaved)

/-- A register of a unit that holds what was found keeps it when found values are written. -/
theorem write_found {found : UInt32 → UInt64} {item : MsrItem} {unit v : Nat} {reg : UInt32}
    {m : Msr} (hmask : item.mask = MsrItem.kNoMask) (hvalue : item.value = found item.reg)
    (h : m.registers v reg = found reg) :
    (m.write cpu env item unit).2.registers v reg = found reg := by
  rcases write_cases cpu env m item unit with
    ⟨-, hregs, -⟩ | ⟨value, -, hregs, -, hval, -⟩
  · rw [hregs, h]
  · rw [hregs]
    by_cases hu : v = unit
    · subst hu
      by_cases hr : reg = item.reg
      · subst hr
        simp [hval hmask, hvalue]
      · simp [Function.update_of_ne hr, h]
    · simp [Function.update_of_ne hu, h]

theorem write_establish {found : UInt32 → UInt64} {item : MsrItem} {unit : Nat} {m : Msr}
    (hmask : item.mask = MsrItem.kNoMask) (hvalue : item.value = found item.reg)
    (h : (m.write cpu env item unit).1 = true) :
    (m.write cpu env item unit).2.registers unit item.reg = found item.reg := by
  rcases write_cases cpu env m item unit with
    ⟨hfail, -, -⟩ | ⟨value, -, hregs, -, hval, -⟩
  · rw [hfail] at h
    contradiction
  · rw [hregs]
    simp [hval hmask, hvalue]

theorem writeItems_establish {found : UInt32 → UInt64} {unit : Nat} {items : List MsrItem}
    {m : Msr} (hitems : ∀ i ∈ items, i.mask = MsrItem.kNoMask ∧ i.value = found i.reg)
    (h : (writeItems cpu env unit items m).1 = true) :
    ∀ i ∈ items, (writeItems cpu env unit items m).2.registers unit i.reg = found i.reg := by
  induction items generalizing m with
  | nil => simp
  | cons item items ih =>
      have hrest : ∀ i ∈ items, i.mask = MsrItem.kNoMask ∧ i.value = found i.reg :=
        fun i hi => hitems i (List.mem_cons_of_mem _ hi)
      obtain ⟨hmask, hvalue⟩ := hitems item List.mem_cons_self
      have hown : (m.write cpu env item unit).1 = true →
          (m.write cpu env item unit).2.registers unit item.reg = found item.reg :=
        write_establish hmask hvalue
      simp only [writeItems] at h ⊢
      split at h
      · next m' heq =>
        rw [heq] at hown
        intro i hi
        rcases List.mem_cons.mp hi with rfl | hi
        · exact writeItems_rule (P := fun m => m.registers unit i.reg = found i.reg)
            (fun j hj m hm => write_found (hrest j hj).1 (hrest j hj).2 hm) (hown rfl)
        · exact ih hrest h i hi
      · contradiction

/-- The class of service 0 is what was found. -/
theorem writeUnit_found {found : UInt32 → UInt64} {items : List MsrItem} {cacheQoS : Bool}
    {full : Nat → Bool} {unit v : Nat} {reg : UInt32} {m : Msr} (hfull : full unit = true)
    (hitems : ∀ i ∈ items, i.mask = MsrItem.kNoMask ∧ i.value = found i.reg)
    (hclass : cacheQoS = true → found kPqrAssoc = 0) (h : m.registers v reg = found reg) :
    (writeUnit cpu env items cacheQoS full unit m).2.registers v reg = found reg := by
  refine writeUnit_rule (P := fun m => m.registers v reg = found reg)
    (fun i hi m hm => write_found (hitems i hi).1 (hitems i hi).2 hm) ?_ h
  intro hqos item hmask hitem m hm
  rcases hitem with rfl | ⟨hnot, -⟩
  · exact write_found rfl (hclass hqos).symm hm
  · simp [hfull] at hnot

theorem writeUnit_establish {found : UInt32 → UInt64} {items : List MsrItem} {cacheQoS : Bool}
    {full : Nat → Bool} {unit : Nat} {m : Msr} (hfull : full unit = true)
    (hitems : ∀ i ∈ items, i.mask = MsrItem.kNoMask ∧ i.value = found i.reg)
    (hclass : cacheQoS = true → found kPqrAssoc = 0)
    (h : (writeUnit cpu env items cacheQoS full unit m).1 = true) (reg : UInt32)
    (hreg : Undone items cacheQoS reg) :
    (writeUnit cpu env items cacheQoS full unit m).2.registers unit reg = found reg := by
  have hest : (writeItems cpu env unit items m).1 = true →
      ∀ i ∈ items, (writeItems cpu env unit items m).2.registers unit i.reg = found i.reg :=
    writeItems_establish hitems
  simp only [writeUnit] at h ⊢
  split at h
  · next m' heq =>
    rw [heq] at hest
    have hown : ∀ i ∈ items, m'.registers unit i.reg = found i.reg := hest rfl
    cases hqos : cacheQoS with
    | false =>
        rcases hreg with hreg | ⟨-, hq, -⟩
        · obtain ⟨i, hi, rfl⟩ := List.mem_map.mp hreg
          exact hown i hi
        · rw [hqos] at hq
          contradiction
    | true =>
        have hzero : (0 : UInt64) = found kPqrAssoc := (hclass hqos).symm
        simp only [hqos, hfull, writeQoS, Bool.not_true, Bool.false_eq_true, ↓reduceIte] at h ⊢
        rcases hreg with hreg | ⟨-, -, rfl⟩
        · obtain ⟨i, hi, rfl⟩ := List.mem_map.mp hreg
          exact write_found rfl hzero (hown i hi)
        · exact write_establish rfl hzero h
  · contradiction

theorem isFull_nil (unit : Nat) : isFull cpu [] unit = true := rfl

/-- Writing back what was saved, where all writes go through. -/
theorem writeUnits_restore {found : UInt32 → UInt64} {items : List MsrItem} {cacheQoS : Bool}
    {m : Msr} (hitems : ∀ i ∈ items, i.mask = MsrItem.kNoMask ∧ i.value = found i.reg)
    (hclass : cacheQoS = true → found kPqrAssoc = 0) (hsafe : Safe cpu found items cacheQoS m)
    (h : (writeUnits (writeUnit cpu env items cacheQoS (isFull cpu [])) cpu.units m).1 = true) :
    ∀ reg, ∀ unit ∈ cpu.units,
      (writeUnits (writeUnit cpu env items cacheQoS (isFull cpu [])) cpu.units m).2.registers
        unit reg = found reg := by
  intro reg unit hunit
  rcases hsafe.2 reg with hreg | hreg
  · exact writeUnits_establish (P := fun v m => m.registers v reg = found reg)
      (fun v u m hm => writeUnit_found (isFull_nil u) hitems hclass hm)
      (fun u m hm => writeUnit_establish (isFull_nil u) hitems hclass hm reg hreg) h unit hunit
  · exact writeUnits_rule (P := fun m => m.registers unit reg = found reg)
      (fun u _ m hm => writeUnit_found (isFull_nil u) hitems hclass hm) (hreg unit hunit)

/-! ## Saving -/

theorem read_eq (m : Msr) (reg : UInt32) :
    m.read cpu env reg =
      (if env.ok m.accesses (.read cpu.first reg) then
        ⟨reg, m.registers cpu.first reg, MsrItem.kNoMask⟩ else .empty,
        { m with accesses := m.accesses + 1 }) := by
  by_cases hok : env.ok m.accesses (.read cpu.first reg) = true
  · simp [Msr.read, Msr.rdmsr, Msr.opened, hok]
  · simp [Msr.read, Msr.rdmsr, Msr.opened, hok]

theorem save_msr (cpu : MsrCpu) (env : MsrEnv) (preset items : List MsrItem) (m : Msr) :
    (save cpu env preset items m).2.registers = m.registers ∧
      (save cpu env preset items m).2.log = m.log := by
  induction preset generalizing items m with
  | nil => exact ⟨rfl, rfl⟩
  | cons i preset ih =>
      simp only [save, read_eq]
      by_cases hvalid : (if env.ok m.accesses (.read cpu.first i.reg) then
          ⟨i.reg, m.registers cpu.first i.reg, MsrItem.kNoMask⟩ else MsrItem.empty).isValid
      · rw [if_pos hvalid]
        exact ih ..
      · rw [if_neg hvalid]
        exact ⟨rfl, rfl⟩

/-- The registers of the preset follow what was saved before, with their values in the first unit,
if all of them can be read. -/
theorem save_eq (cpu : MsrCpu) (env : MsrEnv) (preset items : List MsrItem) (m : Msr) :
    (save cpu env preset items m).1 =
      if Readable cpu env preset m.accesses then
        some (items ++ preset.map fun i => ⟨i.reg, m.registers cpu.first i.reg, MsrItem.kNoMask⟩)
      else none := by
  induction preset generalizing items m with
  | nil => simp [save, Readable]
  | cons i preset ih =>
      simp only [save, Readable]
      by_cases hok : env.ok m.accesses (.read cpu.first i.reg) = true
      · by_cases hreg : i.reg > 0
        · simp [read_eq, hok, hreg, MsrItem.isValid, ih]
        · simp [read_eq, hok, hreg, MsrItem.isValid]
      · simp [read_eq, hok, MsrItem.isValid, MsrItem.empty]

/-! ## Runs -/

theorem invariant_new (found : UInt32 → UInt64) : Invariant cpu (new found) where
  saved := by simp [new]
  class0 := by simp [new]
  safe := ⟨by simp [new], fun reg => .inr fun unit _ => rfl⟩
  restored := by simp [new]

/-- Saved items that are written back cover what the earlier ones did. -/
theorem Safe.mono {found : UInt32 → UInt64} {items items' : List MsrItem}
    {cacheQoS cacheQoS' : Bool} {m : Msr}
    (himp : ∀ reg, Undone items cacheQoS reg → Undone items' cacheQoS' reg ∨
      ∀ unit ∈ cpu.units, m.registers unit reg = found reg)
    (h : Safe cpu found items cacheQoS m) : Safe cpu found items' cacheQoS' m := by
  refine ⟨h.1, fun reg => ?_⟩
  rcases h.2 reg with hreg | hreg
  · exact himp reg hreg
  · exact .inr hreg

/-- What is written back after an `init` with `cacheQoS`, when `items` are kept. -/
theorem Invariant.undone {s : RxMsr} {items : List MsrItem} {cacheQoS : Bool}
    (hsub : s.items.map MsrItem.reg ⊆ items.map MsrItem.reg)
    (hoff : cacheQoS = false → s.cacheQoS = true →
      AsFound cpu s kPqrAssoc ∨ kPqrAssoc ∈ items.map MsrItem.reg) (h : Invariant cpu s) :
    Safe cpu s.found items cacheQoS s.msr := by
  refine h.safe.mono fun reg hreg => ?_
  rcases hreg with hreg | ⟨hne, hqos, rfl⟩
  · exact .inl (.inl (hsub hreg))
  · cases hnew : cacheQoS with
    | true =>
        have hne' : items ≠ [] := by
          rintro rfl
          exact hne (List.map_eq_nil_iff.mp (List.subset_nil.mp hsub))
        exact .inl (.inr ⟨hne', rfl, rfl⟩)
    | false =>
        rcases hoff hnew hqos with hfound | hsaved
        · exact .inr hfound
        · exact .inl (.inl hsaved)

/-- What `save` adds to the items. -/
def savedItems (cpu : MsrCpu) (preset : List MsrItem) (m : Msr) : List MsrItem :=
  preset.map fun i => ⟨i.reg, m.registers cpu.first i.reg, MsrItem.kNoMask⟩

theorem reg_savedItems (preset : List MsrItem) (m : Msr) :
    (savedItems cpu preset m).map MsrItem.reg = preset.map MsrItem.reg := by
  simp [savedItems]

/-- `wrmsr` of `init`. -/
theorem wrmsr_save (s : RxMsr) (preset : List MsrItem) (threads : List CpuThread)
    (cacheQoS : Bool) :
    (s.wrmsr cpu env preset threads cacheQoS true).2 =
      if !env.available then s
      else if Readable cpu env preset s.msr.accesses then
        { s with
          items := s.items ++ savedItems cpu preset s.msr
          msr := (writeUnits (writeUnit cpu env preset cacheQoS (isFull cpu threads)) cpu.units
            (save cpu env preset s.items s.msr).2).2 }
      else { s with items := [], msr := (save cpu env preset s.items s.msr).2 } := by
  have hsave := save_eq cpu env preset s.items s.msr
  cases hav : env.available with
  | false => simp [RxMsr.wrmsr, hav]
  | true =>
      by_cases hread : Readable cpu env preset s.msr.accesses
      · rw [if_pos hread] at hsave
        simp [RxMsr.wrmsr, hav, hread, hsave, savedItems]
      · rw [if_neg hread] at hsave
        simp [RxMsr.wrmsr, hav, hread, hsave]

/-- `wrmsr` of `destroy`. -/
theorem wrmsr_restore (s : RxMsr) (preset : List MsrItem) (threads : List CpuThread)
    (cacheQoS : Bool) :
    s.wrmsr cpu env preset threads cacheQoS false =
      if !env.available then (false, s)
      else
        let (ok, msr) :=
          writeUnits (writeUnit cpu env preset cacheQoS (isFull cpu threads)) cpu.units s.msr
        (ok, { s with msr }) := by
  simp [RxMsr.wrmsr]

/-- Reading changes nothing. -/
theorem Safe.save {found : UInt32 → UInt64} {items saved preset : List MsrItem} {cacheQoS : Bool}
    {m : Msr} (h : Safe cpu found items cacheQoS m) :
    Safe cpu found items cacheQoS (RxMsr.save cpu env preset saved m).2 := by
  obtain ⟨hregs, hlog⟩ := save_msr cpu env preset saved m
  rw [Safe, hregs, hlog]
  exact h

theorem Invariant.wrmsr {s : RxMsr} {preset : List MsrItem} {threads : List CpuThread}
    {cacheQoS : Bool} (hne : preset ≠ []) (hkept : Kept cpu env s preset threads cacheQoS)
    (h : Invariant cpu s) :
    Invariant cpu
      ({ s with initialized := true, enabled := false, cacheQoS, restored := false }.wrmsr
        cpu env preset threads cacheQoS true).2 := by
  rw [wrmsr_save]
  have hoff := hkept.off
  cases hav : env.available with
  | false =>
      simp only [hav, Bool.false_eq_true, ↓reduceIte, List.append_nil] at hoff
      have hsafe : Safe cpu s.found s.items cacheQoS s.msr := h.undone (fun _ hi => hi) hoff
      exact ⟨h.saved, hkept.class0, hsafe, by simp⟩
  | true =>
      simp only [hav, ↓reduceIte, List.map_append] at hoff
      by_cases hread : Readable cpu env preset s.msr.accesses
      · simp only [Bool.not_true, Bool.false_eq_true, ↓reduceIte, if_pos hread]
        have hsaved := hkept.saved hav hread
        have hregs : (s.items ++ savedItems cpu preset s.msr).map MsrItem.reg =
            s.items.map MsrItem.reg ++ preset.map MsrItem.reg := by
          rw [List.map_append, reg_savedItems]
        refine ⟨?_, hkept.class0, ?_, by simp⟩
        · intro i hi
          rcases List.mem_append.mp hi with hi | hi
          · exact h.saved i hi
          · obtain ⟨j, hj, rfl⟩ := List.mem_map.mp hi
            exact ⟨rfl, hsaved j hj⟩
        · have hsafe : Safe cpu s.found (s.items ++ savedItems cpu preset s.msr) cacheQoS s.msr := by
            refine h.undone ?_ ?_
            · rw [hregs]
              exact List.subset_append_left ..
            · rw [hregs]
              exact hoff
          refine hsafe.save.writeUnits ?_ (hkept.masked hav) ?_ ?_
          · simp [savedItems, hne]
          · intro i hi
            rw [hregs]
            exact List.mem_append_right _ (List.mem_map_of_mem hi)
          · rw [hregs, ← List.map_append]
            exact hkept.full hav
      · simp only [Bool.not_true, Bool.false_eq_true, ↓reduceIte, if_neg hread]
        have hall := hkept.forgotten hav hread
        refine ⟨by simp, hkept.class0, ?_, by simp⟩
        exact Safe.save ⟨h.safe.1, fun reg => .inr (hall reg)⟩

theorem Invariant.set_enabled {s : RxMsr} (enabled : Bool) (h : Invariant cpu s) :
    Invariant cpu { s with enabled } :=
  ⟨h.saved, h.class0, h.safe, h.restored⟩

theorem Invariant.init {s : RxMsr} {config : RxConfig} {threads : List CpuThread}
    (hguard : Guarded cpu mod s (.init config threads env)) (h : Invariant cpu s) :
    Invariant cpu (s.init cpu env mod config threads) := by
  obtain ⟨hrdmsr, hkept⟩ := hguard
  cases hinit : s.initialized with
  | true =>
      simp only [RxMsr.init, hinit, ↓reduceIte]
      exact ⟨h.saved, h.class0, h.safe, by simp⟩
  | false =>
      simp only [RxMsr.init, hinit, Bool.false_eq_true, ↓reduceIte, hrdmsr]
      by_cases hne : config.chosenPreset mod = []
      · simp only [hne, List.isEmpty_nil, ↓reduceIte]
        exact ⟨h.saved, h.class0, h.safe, by simp⟩
      · have hne' : (config.chosenPreset mod).isEmpty = false := by simpa using hne
        simp only [hne', Bool.false_eq_true, ↓reduceIte]
        exact (h.wrmsr hne (hkept hinit hne)).set_enabled _

theorem Invariant.destroy {s : RxMsr} (hguard : Guarded cpu mod s (.destroy env))
    (h : Invariant cpu s) : Invariant cpu (s.destroy cpu env) := by
  cases hinit : s.initialized with
  | false =>
      simp only [RxMsr.destroy, hinit, Bool.not_false, ↓reduceIte]
      refine ⟨h.saved, h.class0, h.safe, fun _ => ?_⟩
      rcases hguard with hguard | hall
      · rw [hinit] at hguard
        contradiction
      · exact hall
  | true =>
      simp only [RxMsr.destroy, hinit, Bool.not_true, Bool.false_eq_true, ↓reduceIte]
      by_cases hne : s.items = []
      · have hempty : s.items.isEmpty = true := by simp [hne]
        simp only [hempty, ↓reduceIte]
        refine ⟨h.saved, h.class0, h.safe, fun _ reg => ?_⟩
        rcases h.safe.2 reg with hreg | hreg
        · simp [Undone, hne] at hreg
        · exact hreg
      · have hne' : s.items.isEmpty = false := by simpa using hne
        simp only [hne', Bool.false_eq_true, ↓reduceIte, wrmsr_restore]
        cases hav : env.available with
        | false => exact ⟨h.saved, h.class0, h.safe, by simp⟩
        | true =>
            refine ⟨h.saved, h.class0, ?_, ?_⟩
            · refine h.safe.writeUnits hne (fun i hi => masked_of_noMask (h.saved i hi).1)
                (fun i hi => List.mem_map_of_mem hi) (fun _ => .inl fun unit _ => isFull_nil unit)
            · exact writeUnits_restore h.saved h.class0 h.safe

/-- Every write stays inside its mask, and after a `destroy` that did not fail all registers hold
what was found. -/
theorem given_back {s : RxMsr} (h : (machine cpu mod).ReachableIf (Guarded cpu mod) s) :
    (∀ w ∈ s.msr.log, w.Inside) ∧ (s.restored = true → ∀ reg, AsFound cpu s reg) := by
  have hinv : Invariant cpu s := by
    refine h.invariant ?_ ?_
    · rintro _ ⟨found, rfl⟩
      exact invariant_new found
    · intro s e s' hs hguard hstep
      cases e with
      | init config threads env =>
          obtain rfl := Option.some.inj hstep
          exact hs.init hguard
      | destroy env =>
          obtain rfl := Option.some.inj hstep
          exact hs.destroy hguard
  exact ⟨hinv.safe.1, hinv.restored⟩

/-- `rdmsr` is on. -/
def Event.Reads : Event → Prop
  | .init config _ _ => config.rdmsr = true
  | .destroy _ => True

def sampleCpu : MsrCpu := ⟨0, [], false⟩

/-- A fresh configuration, with a preset of its own or not. -/
def sampleConfig (msrPreset : List MsrItem) : RxConfig :=
  { RxConfig.new ⟨true, true, true, true⟩ with msrPreset }

/-- One access does not go through, if any. -/
def refusing (n : Option Nat) : MsrEnv := ⟨true, fun k _ => some k ≠ n⟩

/-- A register is masked that the second access is to read. -/
def maskedRun : List Event := [.init (sampleConfig [⟨0x1a4, 3, 1⟩]) [] (refusing (some 1))]

/-- `destroy` cannot write, and the next `init` saves what the first had set. -/
def staleRun : List Event :=
  [.init (sampleConfig []) [] (refusing none), .destroy (refusing (some 2)),
    .init (sampleConfig []) [] (refusing none), .destroy (refusing none)]

instance (e : Event) : Decidable e.Reads :=
  match e with
  | .init config _ _ => inferInstanceAs (Decidable (config.rdmsr = true))
  | .destroy _ => inferInstanceAs (Decidable True)

/-- A masked item is written whole when its register cannot be read, and a register keeps what was
set when a `destroy` before had failed. -/
theorem not_given_back :
    (∃ s, (machine sampleCpu .MSR_MOD_INTEL).ReachableIf (fun _ e => e.Reads) s ∧
      ∃ w ∈ s.msr.log, ¬ w.Inside) ∧
    ∃ s, (machine sampleCpu .MSR_MOD_INTEL).ReachableIf (fun _ e => e.Reads) s ∧
      s.restored = true ∧ ∃ w ∈ s.msr.log, ¬ AsFound sampleCpu s w.reg := by
  let M := machine sampleCpu .MSR_MOD_INTEL
  have h0 : M.init (new fun _ => 0) := ⟨fun _ => 0, rfl⟩
  constructor
  · have hm : M.Meets (fun _ e => e.Reads) (new fun _ => 0) maskedRun := by decide
    have hrun : (M.run (new fun _ => 0) maskedRun).any
        (fun s => s.msr.log.any fun w => !decide w.Inside) = true := by decide
    obtain ⟨s, hs, hp⟩ := Machine.ReachableIf.exists_of_run h0 hm hrun
    exact ⟨s, hs, by simpa using hp⟩
  · have hm : M.Meets (fun _ e => e.Reads) (new fun _ => 0) staleRun := by decide
    have hrun : (M.run (new fun _ => 0) staleRun).any (fun s => s.restored &&
        s.msr.log.any fun w => s.msr.registers 0 w.reg ≠ s.found w.reg) = true := by decide
    obtain ⟨s, hs, hp⟩ := Machine.ReachableIf.exists_of_run h0 hm hrun
    simp only [Bool.and_eq_true, List.any_eq_true, decide_eq_true_eq] at hp
    obtain ⟨hrestored, w, hw, hne⟩ := hp
    exact ⟨s, hs, hrestored, w, hw, fun hall => hne (hall 0 List.mem_cons_self)⟩

/-- A masked item is set, and the register given back. -/
def cycleRun : List Event :=
  [.init (sampleConfig [⟨0x1a4, 3, 1⟩]) [] (refusing none), .destroy (refusing none)]

theorem given_back_sample :
    ∃ s, (machine sampleCpu .MSR_MOD_INTEL).ReachableIf (Guarded sampleCpu .MSR_MOD_INTEL) s ∧
      s.restored = true ∧ s.msr.log.length = 2 ∧
      (∀ w ∈ s.msr.log, w.Inside) ∧ (s.restored = true → ∀ reg, AsFound sampleCpu s reg) := by
  let M := machine sampleCpu .MSR_MOD_INTEL
  have h0 : M.init (new fun _ => 0) := ⟨fun _ => 0, rfl⟩
  have hkept : Kept sampleCpu (refusing none) (new fun _ => 0) [⟨0x1a4, 3, 1⟩] [] false := by
    refine ⟨?_, fun _ _ _ _ => rfl, fun _ h => absurd (by decide) h, by simp, by simp,
      fun _ h => by cases h⟩
    exact fun _ item _ _ unit _ n => .inl (by simp [refusing])
  have hm : M.Meets (Guarded sampleCpu .MSR_MOD_INTEL) (new fun _ => 0) cycleRun :=
    ⟨⟨rfl, fun _ _ => hkept⟩, .inl rfl, trivial⟩
  have hrun : (M.run (new fun _ => 0) cycleRun).any
      (fun s => s.restored && s.msr.log.length == 2) = true := by decide
  obtain ⟨s, hs, hp⟩ := Machine.ReachableIf.exists_of_run h0 hm hrun
  simp only [Bool.and_eq_true, beq_iff_eq] at hp
  exact ⟨s, hs, hp.1, hp.2, given_back hs⟩

end RxMsr

end XLArig
