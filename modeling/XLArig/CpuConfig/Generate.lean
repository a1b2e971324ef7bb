import XLArig.CpuConfig

/-!
# XLArig.CpuConfig.Generate

What generated profiles are: each generator finishes what it is for, takes nothing away, and
leaves profiles that can be written and read again.

`Generator.Good` collects what there is to say of one generator, and `Generator.all_good` says
it of all.
-/

namespace XLArig

/-- The build has a name for the algorithm. -/
def Algorithm.Named [Features] (a : Algorithm) : Prop := ∃ x ∈ algorithmNames, x.id = a

namespace Cpu

/-! ## Keys -/

@[simp] theorem before_self (a : List UInt8) : before a a = false := by
  simp [before]

@[simp] theorem algorithm_before_self (a : Algorithm) : a.before a = false := by
  simp [Algorithm.before]

@[simp] theorem same_algorithm {a b : Algorithm} :
    OrdMap.same Algorithm.before a b = true ↔ a = b := by
  constructor
  · intro h
    have heq : a.ctorIdx = b.ctorIdx := by
      simp only [OrdMap.same, Algorithm.before, Bool.and_eq_true, Bool.not_eq_true',
        decide_eq_false_iff_not] at h
      omega
    rw [← Algorithm.ofNat_ctorIdx a, heq, Algorithm.ofNat_ctorIdx]
  · rintro rfl
    simp [OrdMap.same]

variable [ft : Features]

/-- The names of the algorithms that may share the threads of `rx/wow`. -/
theorem shortName_randomx (h : ft.randomx = true) :
    Algorithm.RX_ARQ.shortName = bytes "rx/arq" ∧ Algorithm.RX_KEVA.shortName = bytes "rx/keva" ∧
      Algorithm.RX_WOW.shortName = bytes "rx/wow" ∧
      Algorithm.RX_XLA.shortName = bytes "panthera" := by
  have hall : ∀ a b c d e f : Bool,
      @Algorithm.shortName ⟨a, b, c, true, d, e, f⟩ .RX_ARQ = bytes "rx/arq" ∧
      @Algorithm.shortName ⟨a, b, c, true, d, e, f⟩ .RX_KEVA = bytes "rx/keva" ∧
      @Algorithm.shortName ⟨a, b, c, true, d, e, f⟩ .RX_WOW = bytes "rx/wow" ∧
      @Algorithm.shortName ⟨a, b, c, true, d, e, f⟩ .RX_XLA = bytes "panthera" := by
    decide +kernel
  obtain ⟨a, b, c, d, e, f, g⟩ := ft
  dsimp only at h
  subst h
  exact hall a b c e f g

/-! ## Profiles that can be read again -/

/-- A profile that is written under its own name, and read again as it was. -/
structure Kept (name : List UInt8) (threads : CpuThreads) : Prop where
  name_ne : name ≠ []
  cstr_name : Json.cstr name = name
  not_empty : threads.isEmpty = false
  reads : CpuThreads.ofJSON threads.toJSON = threads

/-- An alias whose profile is missing is one of those that are generated, and there is no
profile of the algorithm's own either. -/
structure Sound (t : Threads) : Prop where
  profiles : ∀ x ∈ t.profiles.entries, Kept x.1 x.2
  disabled : ∀ x ∈ t.disabled.entries, x.1.Named
  named : ∀ x ∈ t.aliases.entries, x.1.Named ∧ Json.cstr x.2 = x.2
  dangling : ∀ x ∈ t.aliases.entries, t.has x.2 = false →
    (x.1 = .RX_ARQ ∨ x.1 = .RX_KEVA) ∧ t.has x.1.shortName = false

/-- Nothing is taken away. -/
structure Grows (t t' : Threads) : Prop where
  has : ∀ profile, t.has profile = true → t'.has profile = true
  isExist : ∀ a, t.isExist a = true → t'.isExist a = true

namespace Grows

variable {t t' t'' : Threads}

theorem refl (t : Threads) : Grows t t := ⟨fun _ h => h, fun _ h => h⟩

theorem trans (h : Grows t t') (h' : Grows t' t'') : Grows t t'' :=
  ⟨fun profile hp => h'.has profile (h.has profile hp), fun a ha => h'.isExist a (h.isExist a ha)⟩

end Grows

namespace Threads

variable {t : Threads} {a : Algorithm} {profile name : List UInt8} {threads : CpuThreads}

theorem isExist_iff : t.isExist a = true ↔
    t.isDisabled a = true ∨ t.aliases.has a = true ∨ t.has a.shortName = true := by
  simp [isExist, or_assoc]

omit ft in
theorem move_of_has (h : t.has name = true) : t.move name threads = (0, t) := by
  simp [move, h]

omit ft in
theorem move_not_empty (h : t.has name = false) (hne : threads.isEmpty = false) :
    (t.move name threads).2 = { t with profiles := t.profiles.insert name threads } := by
  simp [move, h, hne]

omit ft in
variable (t name threads) in
theorem move_cases : (t.move name threads).2 = t ∨ threads.isEmpty = false ∧
    (t.move name threads).2 = { t with profiles := t.profiles.insert name threads } := by
  unfold move
  split
  · exact .inl rfl
  · cases hempty : threads.isEmpty with
    | true => exact .inl rfl
    | false => exact .inr ⟨rfl, rfl⟩

/-! ### Growth -/

theorem grows_insert : Grows t { t with profiles := t.profiles.insert name threads } where
  has _ h := OrdMap.has_insert_of_has h
  isExist a h := by
    rw [isExist_iff] at h ⊢
    exact h.imp_right (Or.imp_right OrdMap.has_insert_of_has)

theorem grows_move : Grows t (t.move name threads).2 := by
  obtain heq | ⟨-, heq⟩ := move_cases t name threads
  · rw [heq]
    exact .refl t
  · rw [heq]
    exact grows_insert

theorem grows_disable : Grows t (t.disable a) where
  has _ h := h
  isExist b h := by
    rw [isExist_iff] at h ⊢
    exact h.imp_left OrdMap.has_insert_of_has

theorem isExist_disable : (t.disable a).isExist a = true :=
  isExist_iff.mpr (.inl (OrdMap.has_insert_self (algorithm_before_self a)))

omit ft in
/-- The state with an alias for an algorithm that had none. -/
theorem setAlias_of_not_has (h : t.aliases.has a = false) :
    t.setAlias a profile = { t with aliases := t.aliases.insert a profile } := by
  rw [setAlias, OrdMap.assign_of_not_has (by simp [h])]

theorem grows_alias : Grows t { t with aliases := t.aliases.insert a profile } where
  has _ h := h
  isExist b h := by
    rw [isExist_iff] at h ⊢
    exact h.imp_right (Or.imp_left OrdMap.has_insert_of_has)

theorem isExist_alias :
    ({ t with aliases := t.aliases.insert a profile } : Threads).isExist a = true :=
  isExist_iff.mpr (.inr (.inl (OrdMap.has_insert_self (algorithm_before_self a))))

omit ft in
/-- A profile that is not empty is there once it was moved. -/
theorem has_move (hne : threads.isEmpty = false) : (t.move name threads).2.has name = true := by
  cases h : t.has name with
  | true => rwa [move_of_has h]
  | false =>
      rw [move_not_empty h hne]
      exact OrdMap.has_insert_self (before_self name)

/-! ### Soundness -/

theorem sound_insert (h : Sound t) (hkept : Kept name threads)
    (hname : ∀ x ∈ t.aliases.entries, t.has x.2 = false →
      OrdMap.same before name x.1.shortName = false) :
    Sound { t with profiles := t.profiles.insert name threads } where
  profiles x hx := by
    obtain rfl | hx := OrdMap.mem_insert hx
    · exact hkept
    · exact h.profiles x hx
  disabled := h.disabled
  named := h.named
  dangling x hx hmissing := by
    have hmissing : t.has x.2 = false := by
      cases hhas : t.has x.2 with
      | false => rfl
      | true => exact absurd (OrdMap.has_insert_of_has hhas) (by simpa [has] using hmissing)
    obtain ⟨hone, hshort⟩ := h.dangling x hx hmissing
    refine ⟨hone, ?_⟩
    rw [Bool.eq_false_iff]
    intro hhas
    obtain hhas | hsame := OrdMap.has_of_has_insert hhas
    · exact absurd hhas (by simpa [has] using hshort)
    · rw [hname x hx hmissing] at hsame
      contradiction

theorem sound_move (h : Sound t) (hkept : threads.isEmpty = false → Kept name threads)
    (hname : ∀ x ∈ t.aliases.entries, t.has x.2 = false →
      OrdMap.same before name x.1.shortName = false) : Sound (t.move name threads).2 := by
  obtain heq | ⟨hne, heq⟩ := move_cases t name threads
  · rwa [heq]
  · rw [heq]
    exact sound_insert h (hkept hne) hname

theorem sound_disable (h : Sound t) (ha : a.Named) : Sound (t.disable a) where
  profiles := h.profiles
  disabled x hx := by
    obtain rfl | hx := OrdMap.mem_insert hx
    · exact ha
    · exact h.disabled x hx
  named := h.named
  dangling := h.dangling

theorem sound_alias (h : Sound t) (ha : a.Named) (hprofile : Json.cstr profile = profile)
    (hmissing : t.has profile = false →
      (a = .RX_ARQ ∨ a = .RX_KEVA) ∧ t.has a.shortName = false) :
    Sound { t with aliases := t.aliases.insert a profile } where
  profiles := h.profiles
  disabled := h.disabled
  named x hx := by
    obtain rfl | hx := OrdMap.mem_insert hx
    · exact ⟨ha, hprofile⟩
    · exact h.named x hx
  dangling x hx := by
    obtain rfl | hx := OrdMap.mem_insert hx
    · exact hmissing
    · exact h.dangling x hx

end Threads

/-! ## Generators -/

/-- What `Cpu::info()` gives: threads that can be read again, and at least one of them. -/
structure CpuInfo.Plans (info : CpuInfo) : Prop where
  not_empty : ∀ a limit, info.threads a limit ≠ []
  readable : ∀ a limit, ∀ x ∈ info.threads a limit, x.isValid = true ∧ x.Int32

namespace Generator

/-- What there is to say of a generator. -/
structure Good (g : Generator) : Prop where
  mono : ∀ {t t'}, Grows t t' → g.isDone t = true → g.isDone t' = true
  grows : ∀ t, g.isDone t = false → Grows t (g.add t).2
  done : ∀ t, g.isDone t = false → g.isDone (g.add t).2 = true
  sound : ∀ t, g.isDone t = false → Sound t → Sound (g.add t).2

namespace Good

variable {g : Generator} {t : Threads}

theorem run_grows (h : Good g) : Grows t (g.run t).2 := by
  unfold run
  split
  · exact .refl t
  · next hdone => exact h.grows t (by simpa using hdone)

theorem run_done (h : Good g) : g.isDone (g.run t).2 = true := by
  unfold run
  split
  · assumption
  · next hdone => exact h.done t (by simpa using hdone)

theorem run_sound (h : Good g) (ht : Sound t) : Sound (g.run t).2 := by
  unfold run
  split
  · exact ht
  · next hdone => exact h.sound t (by simpa using hdone) ht

end Good

omit ft in
theorem run_of_done {g : Generator} {t : Threads} (h : g.isDone t = true) : g.run t = (0, t) :=
  if_pos h

omit ft in
/-- Nothing is generated where everything is there. -/
theorem runAll_of_done {gs : List Generator} {t : Threads} (h : ∀ g ∈ gs, g.isDone t = true) :
    runAll gs t = (0, t) := by
  induction gs with
  | nil => rfl
  | cons g gs ih =>
      obtain ⟨hg, hgs⟩ := List.forall_mem_cons.mp h
      simp [runAll, run_of_done hg, ih hgs]

theorem runAll_grows {gs : List Generator} {t : Threads} (h : ∀ g ∈ gs, Good g) :
    Grows t (runAll gs t).2 := by
  induction gs generalizing t with
  | nil => exact .refl t
  | cons g gs ih =>
      obtain ⟨hg, hgs⟩ := List.forall_mem_cons.mp h
      exact hg.run_grows.trans (ih hgs)

theorem runAll_sound {gs : List Generator} {t : Threads} (h : ∀ g ∈ gs, Good g) (ht : Sound t) :
    Sound (runAll gs t).2 := by
  induction gs generalizing t with
  | nil => exact ht
  | cons g gs ih =>
      obtain ⟨hg, hgs⟩ := List.forall_mem_cons.mp h
      exact ih hgs (hg.run_sound ht)

/-- Once all have run, all are done: what one of them added stays. -/
theorem runAll_done {gs : List Generator} {t : Threads} (h : ∀ g ∈ gs, Good g) :
    ∀ g ∈ gs, g.isDone (runAll gs t).2 = true := by
  induction gs generalizing t with
  | nil => exact fun g hg => absurd hg List.not_mem_nil
  | cons g gs ih =>
      obtain ⟨hg, hgs⟩ := List.forall_mem_cons.mp h
      have hkept : g.isDone (runAll gs (g.run t).2).2 = true :=
        hg.mono (runAll_grows hgs) hg.run_done
      exact List.forall_mem_cons.mpr ⟨hkept, ih hgs⟩

/-! ### Each of them -/

variable {info : CpuInfo} {limit : UInt32} {key : List UInt8} {a : Algorithm}

omit ft in
theorem planned_not_empty (hplans : info.Plans) : (planned info limit a).isEmpty = false := by
  simpa [planned, CpuThreads.ofList, CpuThreads.isEmpty] using hplans.not_empty a limit

omit ft in
theorem kept_planned (hplans : info.Plans) (hne : key ≠ []) (hkey : Json.cstr key = key) :
    Kept key (planned info limit a) where
  name_ne := hne
  cstr_name := hkey
  not_empty := planned_not_empty hplans
  reads := CpuThreads.ofJSON_ofList (hplans.readable a limit)

/-- An algorithm of RandomX has a name only where RandomX is built. -/
theorem randomx_of_named (ha : a = .RX_ARQ ∨ a = .RX_KEVA) (hnamed : a.Named) :
    ft.randomx = true := by
  obtain ⟨x, hx, hid⟩ := hnamed
  have hvalid := hid ▸ Algorithm.isValid_of_mem hx
  obtain rfl | rfl := ha <;>
    simpa [Algorithm.isValid, Algorithm.family, Algorithm.Family.ifBuilt] using hvalid

/-- Whether a profile of that name hides an alias whose own profile is missing. -/
def Hides (key : List UInt8) (a : Algorithm) : Prop :=
  a = .RX_ARQ ∧ OrdMap.same before key (bytes "rx/arq") = true ∨
    a = .RX_KEVA ∧ OrdMap.same before key (bytes "rx/keva") = true

theorem not_same_shortName {t : Threads} {x : Algorithm × List UInt8} (ht : Sound t)
    (hx : x ∈ t.aliases.entries) (hmissing : t.has x.2 = false) (hhides : ¬ Hides key x.1) :
    OrdMap.same before key x.1.shortName = false := by
  obtain ⟨hone, -⟩ := ht.dangling x hx hmissing
  obtain ⟨harq, hkeva, -, -⟩ := shortName_randomx (randomx_of_named hone (ht.named x hx).1)
  rw [Bool.eq_false_iff]
  intro hsame
  obtain hone | hone := hone
  · exact hhides (.inl ⟨hone, by rwa [hone, harq] at hsame⟩)
  · exact hhides (.inr ⟨hone, by rwa [hone, hkeva] at hsame⟩)

theorem has_of_mem {t : Threads} {x : Algorithm × List UInt8} (hx : x ∈ t.aliases.entries) :
    t.isExist x.1 = true :=
  Threads.isExist_iff.mpr (.inr (.inl (OrdMap.has_iff.mpr ⟨x, hx, same_algorithm.mpr rfl⟩)))

/-- A profile of the family's name, or of the algorithm's own. -/
theorem good_generate (hplans : info.Plans) (hne : key ≠ []) (hkey : Json.cstr key = key)
    (hhides : ∀ b, ¬ Hides key b) : Good (generate info limit key a) where
  mono hgrows hdone := by
    simp only [generate, Bool.or_eq_true] at hdone ⊢
    exact hdone.imp (hgrows.isExist a) (hgrows.has key)
  grows _ _ := Threads.grows_move
  done t _ := by
    have hhas : (t.move key (planned info limit a)).2.has key = true :=
      Threads.has_move (planned_not_empty hplans)
    simp [generate, hhas]
  sound _ _ ht := Threads.sound_move ht (fun _ => kept_planned hplans hne hkey)
    fun _ hx hmissing => not_same_shortName ht hx hmissing (hhides _)

theorem good_disabled (ha : a.Named) : Good (disabled a) where
  mono hgrows := hgrows.isExist a
  grows _ _ := Threads.grows_disable
  done _ _ := Threads.isExist_disable
  sound _ _ ht := Threads.sound_disable ht ha

theorem not_has_of_not_exist {t : Threads} (h : t.isExist a = false) :
    t.aliases.has a = false ∧ t.has a.shortName = false := by
  simp only [Threads.isExist, Bool.or_eq_false_iff] at h
  exact ⟨h.1.2, h.2⟩

variable (info limit key) in
/-- An alias that is generated points to `rx/wow`, whether there is such a profile or not. -/
theorem likeWow_cases {t : Threads} (h : t.isExist a = false) :
    ((likeWow info limit key a).add t).2 =
        { t with aliases := t.aliases.insert a (bytes "rx/wow") } ∨
      ((likeWow info limit key a).add t).2 = (t.move key (planned info limit a)).2 := by
  unfold likeWow
  dsimp only
  split
  · exact .inl (Threads.setAlias_of_not_has (not_has_of_not_exist h).1)
  · exact .inr rfl

theorem good_likeWow (hplans : info.Plans) (hne : key ≠ []) (hkey : Json.cstr key = key)
    (hname : a.shortName = key) (ha : a = .RX_ARQ ∨ a = .RX_KEVA) (hnamed : a.Named)
    (hhides : ∀ b, Hides key b → b = a) : Good (likeWow info limit key a) where
  mono hgrows := hgrows.isExist a
  grows t hdone := by
    obtain heq | heq := likeWow_cases info limit key hdone
    · rw [heq]
      exact Threads.grows_alias
    · rw [heq]
      exact Threads.grows_move
  done t hdone := by
    obtain heq | heq := likeWow_cases info limit key hdone
    · rw [heq]
      exact Threads.isExist_alias
    · rw [heq]
      refine Threads.isExist_iff.mpr (.inr (.inr ?_))
      rw [hname]
      exact Threads.has_move (planned_not_empty hplans)
  sound t hdone ht := by
    obtain heq | heq := likeWow_cases info limit key hdone
    · rw [heq]
      have hwow : Json.cstr (bytes "rx/wow") = bytes "rx/wow" := by decide +kernel
      exact Threads.sound_alias ht hnamed hwow fun _ => ⟨ha, (not_has_of_not_exist hdone).2⟩
    · rw [heq]
      refine Threads.sound_move ht (fun _ => kept_planned hplans hne hkey) fun x hx hmissing => ?_
      refine not_same_shortName ht hx hmissing fun hhidden => ?_
      -- the algorithm itself has no alias yet
      have hexist := has_of_mem hx
      rw [hhides x.1 hhidden] at hexist
      have hnone : t.isExist a = false := hdone
      simp [hnone] at hexist

/-- A profile that is moved under the algorithm's own name. -/
theorem good_wow (hplans : info.Plans) (hrandomx : ft.randomx = true)
    (hhides : ∀ b, ¬ Hides (bytes "rx/wow") b) : Good (wow info limit) where
  mono hgrows := hgrows.isExist .RX_WOW
  grows _ _ := Threads.grows_move
  done t _ := by
    refine Threads.isExist_iff.mpr (.inr (.inr ?_))
    rw [(shortName_randomx hrandomx).2.2.1]
    exact Threads.has_move (planned_not_empty hplans)
  sound _ _ ht := by
    have hkept : Kept (bytes "rx/wow") (planned info limit .RX_WOW) :=
      kept_planned hplans (by decide +kernel) (by decide +kernel)
    exact Threads.sound_move ht (fun _ => hkept)
      fun _ hx hmissing => not_same_shortName ht hx hmissing (hhides _)

theorem good_panthera (hrandomx : ft.randomx = true)
    (h : Good (generate info limit (bytes "panthera") .RX_XLA)) : Good (panthera info limit) where
  mono hgrows := hgrows.isExist .RX_XLA
  grows _ _ := h.run_grows
  done t _ := by
    have hdone := h.run_done (t := t)
    -- its own name is the key
    have hname := (shortName_randomx hrandomx).2.2.2
    simp only [generate, Bool.or_eq_true] at hdone
    exact hdone.elim id fun hhas => Threads.isExist_iff.mpr (.inr (.inr (hname ▸ hhas)))
  sound _ _ ht := h.run_sound ht

/-- A name that can be written, other than the two that may be hidden. -/
def Plain (key : List UInt8) : Prop :=
  (key ≠ [] ∧ Json.cstr key = key) ∧
    OrdMap.same before key (bytes "rx/arq") = false ∧
    OrdMap.same before key (bytes "rx/keva") = false

instance : Decidable (Plain key) := inferInstanceAs (Decidable (_ ∧ _ ∧ _))

omit ft in
theorem not_hides (h : Plain key) (b : Algorithm) : ¬ Hides key b := by
  simp [Hides, h.2.1, h.2.2]

theorem good_plain (hplans : info.Plans) (h : Plain key) : Good (generate info limit key a) :=
  good_generate hplans h.1.1 h.1.2 (not_hides h)

theorem good_RANDOM_X (hplans : info.Plans) : ∀ g ∈ RANDOM_X info limit, Good g := by
  unfold RANDOM_X
  split
  · next hrandomx =>
    obtain ⟨harq, hkeva, -, -⟩ := shortName_randomx hrandomx
    have hmem : ∀ x : Algorithm.AlgoName,
        x ∈ [⟨"randomx/arq", "rx/arq", .RX_ARQ⟩, ⟨"randomx/keva", "rx/keva", .RX_KEVA⟩] →
        x ∈ Algorithm.algorithmNames := by
      simp [Algorithm.algorithmNames, hrandomx]
    have hother : OrdMap.same before (bytes "rx/arq") (bytes "rx/keva") = false ∧
        OrdMap.same before (bytes "rx/keva") (bytes "rx/arq") = false := by decide +kernel
    simp only [List.forall_mem_cons]
    refine ⟨?_, ?_, ?_, ?_, ?_, fun _ h => absurd h List.not_mem_nil⟩
    · refine good_likeWow hplans (by decide +kernel) (by decide +kernel) harq (.inl rfl)
        ⟨_, hmem _ List.mem_cons_self, rfl⟩ ?_
      simp +contextual [Hides, hother.1]
    · refine good_likeWow hplans (by decide +kernel) (by decide +kernel) hkeva (.inr rfl)
        ⟨_, hmem _ (List.mem_cons_of_mem _ List.mem_cons_self), rfl⟩ ?_
      simp +contextual [Hides, hother.2]
    · exact good_wow hplans hrandomx (not_hides (by decide +kernel))
    · exact good_panthera hrandomx (good_plain hplans (by decide +kernel))
    · exact good_plain hplans (by decide +kernel)
  · exact fun _ h => absurd h List.not_mem_nil

theorem good_CN (hplans : info.Plans) : ∀ g ∈ CN info limit, Good g := by
  unfold CN
  simp only [List.forall_mem_cons]
  refine ⟨good_plain hplans (by decide +kernel), good_disabled ?_,
    fun _ h => absurd h List.not_mem_nil⟩
  exact ⟨⟨"cryptonight/0", "cn/0", .CN_0⟩, by simp [Algorithm.algorithmNames], rfl⟩

theorem good_CN_LITE (hplans : info.Plans) : ∀ g ∈ CN_LITE info limit, Good g := by
  unfold CN_LITE
  split
  · next hlite =>
    simp only [List.forall_mem_cons]
    refine ⟨good_plain hplans (by decide +kernel), good_disabled ?_,
      fun _ h => absurd h List.not_mem_nil⟩
    exact ⟨⟨"cryptonight-lite/0", "cn-lite/0", .CN_LITE_0⟩,
      by simp [Algorithm.algorithmNames, hlite], rfl⟩
  · exact fun _ h => absurd h List.not_mem_nil

/-- A family with one profile. -/
theorem good_family (hplans : info.Plans) (h : Plain key) (built : Bool) :
    ∀ g ∈ if built then [generate info limit key a] else [], Good g := by
  split
  · exact List.forall_mem_singleton.mpr (good_plain hplans h)
  · exact fun _ h => absurd h List.not_mem_nil

variable (limit) in
theorem all_good (hplans : info.Plans) : ∀ g ∈ all info limit, Good g := by
  unfold all
  simp only [List.forall_mem_append]
  refine ⟨⟨⟨⟨⟨⟨good_CN hplans, good_CN_LITE hplans⟩, ?_⟩, ?_⟩, good_RANDOM_X hplans⟩, ?_⟩, ?_⟩
  · exact good_family hplans (by decide +kernel) ft.cnHeavy
  · exact good_family hplans (by decide +kernel) ft.cnPico
  · exact good_family hplans (by decide +kernel) ft.argon2
  · exact good_family hplans (by decide +kernel) ft.astrobwt

/-- What is done does not depend on the threads that would be added. -/
theorem map_isDone (info' : CpuInfo) (limit' : UInt32) :
    (all info limit).map isDone = (all info' limit').map isDone := by
  unfold all CN CN_LITE CN_HEAVY CN_PICO RANDOM_X ARGON2 ASTROBWT
  simp only [List.map_append, apply_ite (List.map isDone)]
  rfl

end Generator

end Cpu

end XLArig
