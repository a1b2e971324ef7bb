import XLArig.CpuConfig.ReadBack

/-!
# XLArig.ConfigTransform

`core/config/ConfigTransform`: what the options of the command line make of the member `cpu` of
the document.

Options that are given more than once count as the last of them (`foldl_transform`).  A number
of threads adds the profile `*`, and nothing else in `cpu` is a profile
(`readProfiles_finalize`).
-/

namespace XLArig

namespace CString

/-- `strtoull` with base 10. -/
def strtoullDec (s : List UInt8) : UInt64 :=
  let s := s.dropWhile isSpace
  let negative := s.head? = some 0x2D
  let s := if s.head? = some 0x2D ∨ s.head? = some 0x2B then s.drop 1 else s
  let n := number 10 s
  if n ≥ 2 ^ 64 then .ofNat (2 ^ 64 - 1) else if negative then -.ofNat n else .ofNat n

/-- `strtoull` with base 16, of a text that begins with `0x`. -/
def strtoullHex (s : List UInt8) : UInt64 :=
  let n := number 16 (s.drop 2)
  if n ≥ 2 ^ 64 then .ofNat (2 ^ 64 - 1) else .ofNat n

end CString

open CString

/-- The options that `ConfigTransform` puts into `cpu` or keeps for it; `Benchmark` stands for
those of `transformBenchmark`. -/
inductive IConfig.Key
  | AVKey
  | CPUPriorityKey
  | ThreadsKey
  | HugePageSizeKey
  | HugePagesKey
  | CPUKey
  | CPUAffinityKey
  | CPUMaxThreadsKey
  | MemoryPoolKey
  | YieldKey
  | Argon2ImplKey
  | AssemblyKey
  | AstroBWTMaxSizeKey
  | AstroBWTAVX2Key
  | ConfigKey
  | Benchmark
  | other
  deriving DecidableEq

/-- `ConfigTransform`, with the member `cpu` of the document. -/
structure ConfigTransform where
  affinity : Int
  intensity : UInt64
  threads : UInt64
  cpu : Option (List (List UInt8 × Json))

namespace ConfigTransform

def init : ConfigTransform := ⟨-1, 1, 0, none⟩

/-- `intensity(av)`. -/
def avIntensity (av : UInt64) : UInt64 :=
  match av.toNat with
  | 1 | 3 => 1
  | 2 | 4 => 2
  | 5 | 8 => 3
  | 6 | 9 => 4
  | 7 | 10 => 5
  | _ => 1

/-- `isHwAes(av)`. -/
def isHwAes (av : UInt64) : Bool := av = 1 ∨ av = 2 ∨ (4 < av ∧ av < 8)

/-- The member of that name set, or added. -/
def setMember (key : List UInt8) (value : Json) :
    List (List UInt8 × Json) → List (List UInt8 × Json)
  | [] => [(key, value)]
  | x :: members => if x.1 = key then (key, value) :: members else x :: setMember key value members

/-- `set(doc, CpuConfig::kField, key, value)`. -/
def set (t : ConfigTransform) (key : String) (value : Json) : ConfigTransform :=
  { t with cpu := some (setMember (bytes key) value (t.cpu.getD [])) }

/-- `static_cast<uint64_t>(strtol(arg, nullptr, 10))`. -/
def uint64 (arg : List UInt8) : UInt64 := .ofNat (strtol arg % 2 ^ 64).toNat

def ofUint64 (n : UInt64) : Json := .int n.toNat

/-- The mask that `--cpu-affinity` passes on. -/
def affinityArg (arg : List UInt8) : UInt64 :=
  match strstr (bytes "0x") arg with
  | some p => strtoullHex p
  | none => strtoullDec arg

variable [ft : Features]

/-- `transform`; `--config` ends the document that was begun. -/
def transform (t : ConfigTransform) (opt : IConfig.Key × List UInt8) : ConfigTransform :=
  match opt with
  | (.CPUAffinityKey, arg) => { t with affinity := (affinityArg arg).toInt64.toInt }
  | (.ThreadsKey, arg) => { t with threads := uint64 arg }
  | (.AVKey, arg) =>
      { t with intensity := avIntensity (uint64 arg) }.set "hw-aes" (.bool (isHwAes (uint64 arg)))
  | (.CPUPriorityKey, arg) => t.set "priority" (ofUint64 (uint64 arg))
  | (.HugePageSizeKey, arg) => t.set "huge-pages" (ofUint64 (uint64 arg))
  | (.HugePagesKey, _) => t.set "huge-pages" (.bool false)
  | (.CPUKey, _) => t.set "enabled" (.bool false)
  | (.CPUMaxThreadsKey, arg) => t.set "max-threads-hint" (ofUint64 (uint64 arg))
  | (.MemoryPoolKey, arg) => t.set "memory-pool" (.int (strtol arg))
  | (.YieldKey, _) => t.set "yield" (.bool false)
  | (.Argon2ImplKey, arg) => if ft.argon2 then t.set "argon2-impl" (.string arg) else t
  | (.AssemblyKey, arg) => t.set "asm" (.string arg)
  | (.AstroBWTMaxSizeKey, arg) =>
      if ft.astrobwt then t.set "astrobwt-max-size" (ofUint64 (uint64 arg)) else t
  | (.AstroBWTAVX2Key, _) => if ft.astrobwt then t.set "astrobwt-avx2" (.bool true) else t
  | (.ConfigKey, _) => { t with cpu := none }
  | (.Benchmark, _) =>
      ((t.set "huge-pages-jit" (.bool true)).set "priority" (.int 2)).set "yield" (.bool false)
  | (.other, _) => t

omit ft in
/-- The profile that `finalize` adds. -/
def profile (t : ConfigTransform) : Json :=
  .object [(bytes "intensity", ofUint64 t.intensity), (bytes "threads", ofUint64 t.threads),
    (bytes "affinity", .int t.affinity)]

omit ft in
/-- `finalize`: the members of `cpu`. -/
def finalize (t : ConfigTransform) : List (List UInt8 × Json) :=
  t.cpu.getD [] ++ if t.threads ≠ 0 then [(bytes "*", t.profile)] else []

/-- `load`: the member `cpu` of the last document. -/
def load (opts : List (IConfig.Key × List UInt8)) : List (List UInt8 × Json) :=
  (opts.foldl transform init).finalize

/-! ## The last of each option -/

/-- The argument that counts. -/
def lastArg (key : IConfig.Key) : List (IConfig.Key × List UInt8) → CString
  | [] => none
  | opt :: opts => (lastArg key opts).or (if opt.1 = key then some opt.2 else none)

variable (t : ConfigTransform) (opt : IConfig.Key × List UInt8)

/-- What an option changes of the settings that are kept. -/
theorem transform_spec :
    (t.transform opt).affinity =
        (if opt.1 = .CPUAffinityKey then (affinityArg opt.2).toInt64.toInt else t.affinity) ∧
      (t.transform opt).threads = if opt.1 = .ThreadsKey then uint64 opt.2 else t.threads := by
  obtain ⟨key, arg⟩ := opt
  cases key <;> simp [transform, set] <;> split <;> simp

theorem foldl_transform (opts : List (IConfig.Key × List UInt8)) :
    (opts.foldl transform t).affinity = ((lastArg .CPUAffinityKey opts).map fun arg =>
        (affinityArg arg).toInt64.toInt).getD t.affinity ∧
      (opts.foldl transform t).threads =
        ((lastArg .ThreadsKey opts).map uint64).getD t.threads := by
  induction opts generalizing t with
  | nil => exact ⟨rfl, rfl⟩
  | cons opt opts ih =>
      obtain ⟨haffinity, hthreads⟩ := transform_spec t opt
      obtain ⟨ha, ht⟩ := ih (t.transform opt)
      rw [List.foldl_cons, ha, ht, haffinity, hthreads]
      constructor
      · cases hlast : lastArg .CPUAffinityKey opts with
        | none => simp only [lastArg, hlast, Option.none_or]; split <;> rfl
        | some arg => simp [lastArg, hlast]
      · cases hlast : lastArg .ThreadsKey opts with
        | none => simp only [lastArg, hlast, Option.none_or]; split <;> rfl
        | some arg => simp [lastArg, hlast]

/-! ## The profile -/

/-- There are settings in `cpu` only, and the lanes of a thread are as many as can be read. -/
structure Valid (t : ConfigTransform) : Prop where
  settings : ∀ x ∈ t.cpu.getD [], (x.2.isArray || x.2.isObject) = false
  intensity : 1 ≤ t.intensity.toNat ∧ t.intensity.toNat ≤ 5

variable {t}

omit ft in
theorem mem_setMember {key : List UInt8} {value : Json} {x : List UInt8 × Json}
    {members : List (List UInt8 × Json)} (h : x ∈ setMember key value members) :
    x = (key, value) ∨ x ∈ members := by
  induction members with
  | nil => exact .inl (List.mem_singleton.mp h)
  | cons y members ih =>
      unfold setMember at h
      split at h
      · exact (List.mem_cons.mp h).imp_right (List.mem_cons_of_mem _)
      · obtain rfl | h := List.mem_cons.mp h
        · exact .inr List.mem_cons_self
        · exact (ih h).imp_right (List.mem_cons_of_mem _)

omit ft in
theorem Valid.set (h : Valid t) {key : String} {value : Json}
    (hvalue : (value.isArray || value.isObject) = false) : Valid (t.set key value) where
  settings x hx := by
    obtain rfl | hx := mem_setMember hx
    · exact hvalue
    · exact h.settings x hx
  intensity := h.intensity

omit ft in
theorem avIntensity_range (av : UInt64) :
    1 ≤ (avIntensity av).toNat ∧ (avIntensity av).toNat ≤ 5 := by
  unfold avIntensity
  split <;> decide

theorem Valid.transform (h : Valid t) : Valid (t.transform opt) := by
  obtain ⟨key, arg⟩ := opt
  have hint : ∀ n : UInt64, ((ofUint64 n).isArray || (ofUint64 n).isObject) = false := fun _ => rfl
  cases key with
  | AVKey =>
      have hkept : Valid { t with intensity := avIntensity (uint64 arg) } :=
        ⟨h.settings, avIntensity_range _⟩
      exact hkept.set rfl
  | CPUAffinityKey => exact ⟨h.settings, h.intensity⟩
  | ThreadsKey => exact ⟨h.settings, h.intensity⟩
  | ConfigKey => exact ⟨fun _ hx => absurd hx List.not_mem_nil, h.intensity⟩
  | Benchmark => exact ((h.set rfl).set rfl).set rfl
  | other => exact h
  | Argon2ImplKey | AstroBWTMaxSizeKey | AstroBWTAVX2Key =>
      unfold ConfigTransform.transform
      dsimp only
      split
      · exact h.set rfl
      · exact h
  | _ => exact h.set rfl

theorem valid_foldl (h : Valid t) (opts : List (IConfig.Key × List UInt8)) :
    Valid (opts.foldl transform t) := by
  induction opts generalizing t with
  | nil => exact h
  | cons opt opts ih => exact ih (h.transform opt)

omit ft in
theorem valid_init : Valid init := ⟨fun _ h => absurd h List.not_mem_nil, by decide⟩

omit ft in
/-- It is read as the threads of the mask. -/
theorem ofJSON_profile (h : Valid t) (hthreads : 0 < t.threads.toNat ∧ t.threads.toNat ≤ 1024)
    (haffinity : -2 ^ 63 ≤ t.affinity ∧ t.affinity < 2 ^ 63) :
    CpuThreads.ofJSON t.profile =
      .ofMask t.intensity.toUInt32 t.threads.toNat t.affinity := by
  obtain ⟨hlow, hhigh⟩ := h.intensity
  have hlanes : t.intensity.toUInt32.toNat = t.intensity.toNat := by
    rw [UInt64.toNat_toUInt32]
    omega
  have hrange : 1 ≤ t.intensity.toUInt32 ∧ t.intensity.toUInt32 ≤ 5 := by
    rw [UInt32.le_iff_toNat_le, UInt32.le_iff_toNat_le, hlanes]
    exact ⟨hlow, hhigh⟩
  have hwritten : t.profile =
      (CpuThreads.ofMask t.intensity.toUInt32 t.threads.toNat t.affinity).toJSON := by
    rw [CpuThreads.toJSON_ofMask hrange.1 hthreads, hlanes]
    rfl
  rw [hwritten, CpuThreads.ofJSON_ofMask hrange hthreads haffinity]

theorem profiles_readMarks (threads : Cpu.Threads) (members : List (List UInt8 × Json)) :
    (members.foldl Cpu.Threads.readMark threads).profiles = threads.profiles := by
  induction members generalizing threads with
  | nil => rfl
  | cons member members ih =>
      rw [List.foldl_cons, ih]
      unfold Cpu.Threads.readMark
      dsimp only
      repeat' split
      all_goals rfl

/-- The only profile that is read is the one for all algorithms. -/
theorem read_finalize (h : Valid t) (hthreads : 0 < t.threads.toNat ∧ t.threads.toNat ≤ 1024)
    (haffinity : -2 ^ 63 ≤ t.affinity ∧ t.affinity < 2 ^ 63) :
    (Cpu.Threads.empty.read t.finalize).profiles.find? (bytes "*") =
      some (.ofMask t.intensity.toUInt32 t.threads.toNat t.affinity) := by
  have hne : t.threads ≠ 0 := by
    intro hzero
    simp [hzero] at hthreads
  have hstar : Json.cstr (bytes "*") = bytes "*" := by decide +kernel
  have hempty : (CpuThreads.ofMask t.intensity.toUInt32 t.threads.toNat t.affinity).isEmpty =
      false := by
    simpa [CpuThreads.ofMask, CpuThreads.isEmpty] using Nat.pos_iff_ne_zero.mp hthreads.1
  have hmove : t.finalize.foldl Cpu.Threads.readProfile .empty = (Cpu.Threads.empty.move (bytes "*")
      (.ofMask t.intensity.toUInt32 t.threads.toNat t.affinity)).2 := by
    rw [finalize, if_pos hne, List.foldl_append, Cpu.Threads.readProfile_skipped h.settings,
      List.foldl_cons, List.foldl_nil, Cpu.Threads.readProfile, ofJSON_profile h hthreads haffinity,
      hstar]
    have hobject : ((bytes "*", t.profile).2.isArray || (bytes "*", t.profile).2.isObject) =
        true := rfl
    rw [if_pos hobject, if_neg (Bool.eq_false_iff.mp hempty)]
  rw [Cpu.Threads.read, profiles_readMarks, hmove, Cpu.Threads.move_not_empty rfl hempty]
  rfl

end ConfigTransform

end XLArig
