import XLArig.CpuConfig.Reload

/-!
# XLArig.CpuConfig.Covered

Which algorithms of RandomX have threads once a configuration was read.

A generator touches one name and at most one alias (`Beside`), so that what it finds is what
the user has given, and what it leaves stays.  The aliases that are generated for `rx/arq` and
`rx/keva` need the profile `rx/wow`, and `rx/sfx` needs the profile `rx`; neither is generated
where the user has set its own algorithm aside (`covers_iff`).
-/

namespace XLArig

namespace Cpu

variable [ft : Features]

/-! ## What the user gives -/

/-- The threads that are read of a value, before any are generated. -/
def given : Json → Threads
  | .object members => Threads.empty.read members
  | _ => .empty

/-- The member disables the algorithm, or gives it an alias. -/
def Marks (a : Algorithm) (member : List UInt8 × Json) : Prop :=
  Algorithm.parse (some (Json.cstr member.1)) = a ∧
    (member.2 = .bool false ∨ ∃ s, member.2 = .string s)

/-- The user disabled the algorithm or gave it an alias. -/
def Marked (a : Algorithm) : Json → Prop
  | .object members => ∃ x ∈ members, Marks a x
  | _ => False

/-- Every alias has its profile, and every algorithm of RandomX that is not marked has threads. -/
structure Covers (value : Json) (t : Threads) : Prop where
  aliases : ∀ x ∈ t.aliases.entries, ∃ threads,
    t.profiles.find? x.2 = some threads ∧ threads.isEmpty = false
  threads : ∀ a, a.family = .RANDOM_X → ¬ Marked a value → (t.get a).isEmpty = false

/-- The limit that is read of a value. -/
def limitOf (value : Json) : UInt32 := value.getUint (bytes "max-threads-hint") 100

/-- `rx/wow` is set aside and has no profile, while an algorithm that is left alone would have
the same threads. -/
def LosesWow (info : CpuInfo) (limit : UInt32) (t : Threads) : Prop :=
  t.isExist .RX_WOW = true ∧ t.has (bytes "rx/wow") = false ∧
    ∃ a, (a = .RX_ARQ ∨ a = .RX_KEVA) ∧ t.isExist a = false ∧
      (Generator.planned info limit a).isEqual (Generator.planned info limit .RX_WOW) = true

/-- `rx/0` is set aside and there is no profile `rx`, while `rx/sfx` is left alone. -/
def LosesRx (t : Threads) : Prop :=
  t.isExist .RX_0 = true ∧ t.has (bytes "rx") = false ∧ t.isExist .RX_SFX = false

namespace Threads

variable {t : Threads} {a : Algorithm} {members : List (List UInt8 × Json)}

/-- The algorithm is disabled or has an alias. -/
def IsMarked (t : Threads) (a : Algorithm) : Prop :=
  t.isDisabled a = true ∨ t.aliases.has a = true

omit ft in
theorem has_insert_algorithm {β : Type} {m : OrdMap Algorithm β Algorithm.before} {b : Algorithm}
    {v : β} : (m.insert b v).has a = true ↔ m.has a = true ∨ b = a := by
  constructor
  · exact fun h => (OrdMap.has_of_has_insert h).imp_right same_algorithm.mp
  · rintro (h | rfl)
    · exact OrdMap.has_insert_of_has h
    · exact OrdMap.has_insert_self (algorithm_before_self b)

omit ft in
theorem isMarked_disable {b : Algorithm} : (t.disable b).IsMarked a ↔ t.IsMarked a ∨ b = a := by
  simp only [IsMarked, isDisabled, disable, has_insert_algorithm]
  exact or_right_comm

omit ft in
theorem isMarked_alias {b : Algorithm} {profile : List UInt8} :
    ({ t with aliases := t.aliases.insert b profile } : Threads).IsMarked a ↔
      t.IsMarked a ∨ b = a := by
  simp only [IsMarked, isDisabled, has_insert_algorithm]
  exact or_assoc.symm

/-- No profile is empty. -/
def Filled (t : Threads) : Prop := ∀ x ∈ t.profiles.entries, x.2.isEmpty = false

omit ft in
theorem filled_insert {name : List UInt8} {threads : CpuThreads} (ht : Filled t)
    (hne : threads.isEmpty = false) :
    Filled { t with profiles := t.profiles.insert name threads } := by
  intro x hx
  obtain rfl | hx := OrdMap.mem_insert hx
  · exact hne
  · exact ht x hx

theorem isMarked_readMark (ha : a.isValid = true) (member : List UInt8 × Json) :
    (t.readMark member).IsMarked a ↔ t.IsMarked a ∨ Marks a member := by
  unfold readMark
  split
  · next hprofile =>
    have hmarks : ¬ Marks a member := by
      rintro ⟨-, hfalse | ⟨s, hs⟩⟩
      · simp [hfalse, Json.isArray, Json.isObject] at hprofile
      · simp [hs, Json.isArray, Json.isObject] at hprofile
    exact (or_iff_left hmarks).symm
  · dsimp only
    split
    · next hinvalid =>
      have hmarks : ¬ Marks a member := by
        rintro ⟨rfl, -⟩
        simp [ha] at hinvalid
      exact (or_iff_left hmarks).symm
    · split
      · next hfalse => rw [isMarked_disable, Marks, and_iff_left (.inl hfalse)]
      · next s hs =>
        have hstring : member.2 = .bool false ∨ ∃ s, member.2 = .string s := .inr ⟨s, hs⟩
        split
        · rw [isMarked_alias, Marks, and_iff_left hstring]
        · rw [isMarked_disable, Marks, and_iff_left hstring]
      · next hfalse hstring =>
        have hmarks : ¬ Marks a member := by
          rintro ⟨-, h | ⟨s, h⟩⟩
          · exact hfalse h
          · exact hstring s h
        exact (or_iff_left hmarks).symm

theorem isMarked_readMarks (ha : a.isValid = true) :
    (members.foldl readMark t).IsMarked a ↔ t.IsMarked a ∨ ∃ x ∈ members, Marks a x := by
  induction members generalizing t with
  | nil => simp
  | cons member members ih =>
      rw [List.foldl_cons, ih, isMarked_readMark ha]
      simp [or_assoc]

omit ft in
/-- Nothing but profiles is read at first, and none of them is empty. -/
theorem readProfiles_spec :
    (members.foldl readProfile t).aliases = t.aliases ∧
      (members.foldl readProfile t).disabled = t.disabled ∧
      (Filled t → Filled (members.foldl readProfile t)) := by
  induction members generalizing t with
  | nil => exact ⟨rfl, rfl, id⟩
  | cons member members ih =>
      obtain ⟨haliases, hdisabled, hfilled⟩ := @ih (t.readProfile member)
      rw [List.foldl_cons, haliases, hdisabled]
      obtain heq | ⟨name, threads, hne, heq⟩ := readProfile_cases t member
      · rw [heq] at hfilled ⊢
        exact ⟨rfl, rfl, hfilled⟩
      · rw [heq] at hfilled ⊢
        exact ⟨rfl, rfl, fun ht => hfilled (filled_insert ht hne)⟩

theorem filled_readMark (ht : Filled t) (member : List UInt8 × Json) :
    Filled (t.readMark member) := by
  unfold readMark
  dsimp only
  repeat' split
  all_goals exact ht

theorem filled_readMarks (ht : Filled t) : Filled (members.foldl readMark t) := by
  induction members generalizing t with
  | nil => exact ht
  | cons member members ih => exact ih (filled_readMark ht member)

end Threads

/-- What is read: the marks are those of the user, no profile is empty, and no alias misses its
profile. -/
theorem given_spec (value : Json) : Threads.Filled (given value) ∧ Threads.Whole (given value) ∧
    ∀ a, a.isValid = true → ((given value).IsMarked a ↔ Marked a value) := by
  have hempty : ∀ a, ¬ Threads.empty.IsMarked a := by
    rintro a (h | h)
    · exact absurd h Bool.false_ne_true
    · exact absurd h Bool.false_ne_true
  have hfilled : Threads.Filled .empty := fun _ h => absurd h List.not_mem_nil
  cases value with
  | object members =>
      obtain ⟨haliases, hdisabled, hprofiles⟩ :=
        @Threads.readProfiles_spec .empty members
      have hwhole : Threads.Whole (members.foldl Threads.readProfile .empty) := by
        intro x hx
        rw [haliases] at hx
        exact absurd hx List.not_mem_nil
      refine ⟨Threads.filled_readMarks (hprofiles hfilled), Threads.whole_readMarks hwhole, ?_⟩
      intro a ha
      have hread : given (.object members) = members.foldl Threads.readMark
          (members.foldl Threads.readProfile .empty) := rfl
      have hnone : ¬ (members.foldl Threads.readProfile .empty).IsMarked a := by
        unfold Threads.IsMarked Threads.isDisabled
        rw [haliases, hdisabled]
        exact hempty a
      rw [hread, Threads.isMarked_readMarks ha, or_iff_right hnone]
      rfl
  | _ =>
      refine ⟨hfilled, fun _ h => absurd h List.not_mem_nil, fun a _ => ?_⟩
      exact iff_of_false (hempty a) id

/-! ## What generators touch -/

/-- All that changes are profiles of some names, aliases of some algorithms, and the marks of
other families. -/
structure Beside (keys : List (List UInt8)) (as : List Algorithm) (t t' : Threads) : Prop where
  grows : Grows t t'
  filled : Threads.Filled t → Threads.Filled t'
  has : ∀ name, (∀ key ∈ keys, OrdMap.same before key name = false) → t'.has name = t.has name
  aliases : ∀ a, a ∉ as → ∀ profile,
    ((a, profile) ∈ t'.aliases.entries ↔ (a, profile) ∈ t.aliases.entries)
  isDisabled : ∀ a, a.family = .RANDOM_X → t'.isDisabled a = t.isDisabled a

namespace Beside

variable {keys : List (List UInt8)} {as : List Algorithm} {t t' t'' : Threads} {a : Algorithm}

theorem refl (t : Threads) : Beside keys as t t :=
  ⟨.refl t, id, fun _ _ => rfl, fun _ _ _ => Iff.rfl, fun _ _ => rfl⟩

theorem trans (h : Beside keys as t t') (h' : Beside keys as t' t'') : Beside keys as t t'' where
  grows := h.grows.trans h'.grows
  filled ht := h'.filled (h.filled ht)
  has name hname := (h'.has name hname).trans (h.has name hname)
  aliases a ha profile := (h'.aliases a ha profile).trans (h.aliases a ha profile)
  isDisabled a ha := (h'.isDisabled a ha).trans (h.isDisabled a ha)

theorem hasAlias (h : Beside keys as t t') (ha : a ∉ as) : t'.aliases.has a = t.aliases.has a := by
  have hiff : ∀ t : Threads, t.aliases.has a = true ↔ ∃ p, (a, p) ∈ t.aliases.entries := by
    intro t
    rw [OrdMap.has_iff]
    constructor
    · rintro ⟨⟨b, p⟩, hx, hsame⟩
      obtain rfl := same_algorithm.mp hsame
      exact ⟨p, hx⟩
    · rintro ⟨p, hp⟩
      exact ⟨_, hp, same_algorithm.mpr rfl⟩
  rw [Bool.eq_iff_iff, hiff, hiff]
  exact exists_congr fun p => h.aliases a ha p

theorem isExist (h : Beside keys as t t') (hfamily : a.family = .RANDOM_X) (ha : a ∉ as)
    (hname : ∀ key ∈ keys, OrdMap.same before key a.shortName = false) :
    t'.isExist a = t.isExist a := by
  rw [Threads.isExist, Threads.isExist, h.isDisabled a hfamily, h.hasAlias ha, h.has _ hname]

end Beside

namespace Generator

/-- Whatever there is, the generator touches no more than that. -/
def Adds (keys : List (List UInt8)) (as : List Algorithm) (g : Generator) : Prop :=
  ∀ t, Beside keys as t (g.run t).2

section

variable {info : CpuInfo} {limit : UInt32} {keys : List (List UInt8)} {as : List Algorithm}
  {key name : List UInt8} {a : Algorithm} {g : Generator} {gs pre post : List Generator}
  {t : Threads} {threads : CpuThreads}

theorem beside_move (hkey : key ∈ keys) : Beside keys as t (t.move key threads).2 where
  grows := Threads.grows_move
  filled ht := by
    obtain heq | ⟨hne, heq⟩ := Threads.move_cases t key threads
    · rwa [heq]
    · rw [heq]
      exact Threads.filled_insert ht hne
  has name hname := by
    obtain heq | ⟨-, heq⟩ := Threads.move_cases t key threads
    · rw [heq]
    · rw [heq, Bool.eq_iff_iff]
      refine ⟨fun h => ?_, OrdMap.has_insert_of_has⟩
      exact (OrdMap.has_of_has_insert h).resolve_right (by simp [hname key hkey])
  aliases a _ profile := by
    obtain heq | ⟨-, heq⟩ := Threads.move_cases t key threads <;> rw [heq]
  isDisabled a _ := by
    obtain heq | ⟨-, heq⟩ := Threads.move_cases t key threads <;> rw [heq]
    rfl

/-- A generator that is not done touches what it adds to. -/
theorem adds_of_add (h : ∀ t, g.isDone t = false → Beside keys as t (g.add t).2) :
    Adds keys as g := by
  intro t
  unfold run
  split
  · exact .refl t
  · next hdone => exact h t (by simpa using hdone)

theorem adds_generate (hkey : key ∈ keys) : Adds keys as (generate info limit key a) :=
  adds_of_add fun _ _ => beside_move hkey

theorem adds_disabled (ha : a.family ≠ .RANDOM_X) : Adds keys as (disabled a) := by
  refine adds_of_add fun t _ =>
    ⟨Threads.grows_disable, id, fun _ _ => rfl, fun _ _ _ => Iff.rfl, ?_⟩
  intro b hb
  have hne : a ≠ b := fun heq => ha (heq ▸ hb)
  exact Bool.eq_iff_iff.mpr (Threads.has_insert_algorithm.trans (or_iff_left hne))

theorem adds_likeWow (hkey : key ∈ keys) (ha : a ∈ as) :
    Adds keys as (likeWow info limit key a) := by
  refine adds_of_add fun t hdone => ?_
  obtain heq | heq := likeWow_cases info limit key hdone
  · rw [heq]
    refine ⟨Threads.grows_alias, id, fun _ _ => rfl, fun b hb p => ?_, fun _ _ => rfl⟩
    refine ⟨fun h => ?_, OrdMap.mem_insert_of_mem⟩
    refine (OrdMap.mem_insert h).resolve_left fun hx => hb ?_
    rwa [(Prod.mk.inj hx).1]
  · rw [heq]
    exact beside_move hkey

theorem adds_wow (hkey : bytes "rx/wow" ∈ keys) : Adds keys as (wow info limit) :=
  adds_of_add fun _ _ => beside_move hkey

theorem adds_panthera (hkey : bytes "panthera" ∈ keys) : Adds keys as (panthera info limit) :=
  adds_of_add fun t _ => adds_generate hkey t

theorem beside_runAll (h : ∀ g ∈ gs, Adds keys as g) : Beside keys as t (runAll gs t).2 := by
  induction gs generalizing t with
  | nil => exact .refl t
  | cons g gs ih =>
      obtain ⟨hg, hgs⟩ := List.forall_mem_cons.mp h
      exact (hg t).trans (ih hgs)

omit ft in
theorem runAll_append : (runAll (pre ++ post) t).2 = (runAll post (runAll pre t).2).2 := by
  induction pre generalizing t with
  | nil => rfl
  | cons g gs ih => exact ih

/-- One generator among others that do not touch the same. -/
theorem beside_at (hpre : ∀ g ∈ pre, Adds keys as g) (hpost : ∀ g ∈ post, Adds keys as g) :
    ∃ s, Beside keys as t s ∧ Beside keys as (g.run s).2 (runAll (pre ++ g :: post) t).2 := by
  refine ⟨(runAll pre t).2, beside_runAll hpre, ?_⟩
  rw [runAll_append]
  exact beside_runAll hpost

end

/-! ### The generators of RandomX -/

/-- The names that profiles are generated for. -/
def keys : List (List UInt8) :=
  [bytes "cn", bytes "cn-lite", bytes "cn-heavy", bytes "cn-pico", bytes "rx/arq", bytes "rx/keva",
    bytes "rx/wow", bytes "panthera", bytes "rx", bytes "argon2", bytes "astrobwt"]

/-- The names of the families without aliases. -/
def families : List (List UInt8) :=
  [bytes "cn", bytes "cn-lite", bytes "cn-heavy", bytes "cn-pico", bytes "argon2",
    bytes "astrobwt"]

section

variable (info : CpuInfo) (limit : UInt32)

def front : List Generator :=
  CN info limit ++ CN_LITE info limit ++ CN_HEAVY info limit ++ CN_PICO info limit

def back : List Generator := ARGON2 info limit ++ ASTROBWT info limit

theorem all_eq (h : ft.randomx = true) : all info limit = front info limit ++
    ([likeWow info limit (bytes "rx/arq") .RX_ARQ, likeWow info limit (bytes "rx/keva") .RX_KEVA,
      wow info limit, panthera info limit, generate info limit (bytes "rx") .RX_0] ++
      back info limit) := by
  simp [all, front, back, RANDOM_X, h]

variable {info limit} {K : List (List UInt8)} {as : List Algorithm} {a : Algorithm}
  {key : List UInt8}

theorem adds_family (hkey : key ∈ K) (built : Bool) :
    ∀ g ∈ if built then [generate info limit key a] else [], Adds K as g := by
  split
  · exact List.forall_mem_singleton.mpr (adds_generate hkey)
  · exact fun _ h => absurd h List.not_mem_nil

theorem adds_front (h : families ⊆ K) : ∀ g ∈ front info limit, Adds K as g := by
  have hkey : ∀ key, key ∈ families → key ∈ K := fun _ hkey => h hkey
  unfold front CN CN_LITE
  simp only [List.forall_mem_append, List.forall_mem_cons]
  refine ⟨⟨⟨⟨?_, ?_, fun _ h => absurd h List.not_mem_nil⟩, ?_⟩, ?_⟩, ?_⟩
  · exact adds_generate (hkey _ (by decide +kernel))
  · exact adds_disabled (by simp [Algorithm.family])
  · split
    · simp only [List.forall_mem_cons]
      refine ⟨adds_generate (hkey _ (by decide +kernel)), adds_disabled ?_,
        fun _ h => absurd h List.not_mem_nil⟩
      cases hlite : ft.cnLite <;> simp [Algorithm.family, Algorithm.Family.ifBuilt, hlite]
    · exact fun _ h => absurd h List.not_mem_nil
  · exact adds_family (hkey _ (by decide +kernel)) ft.cnHeavy
  · exact adds_family (hkey _ (by decide +kernel)) ft.cnPico

theorem adds_back (h : families ⊆ K) : ∀ g ∈ back info limit, Adds K as g := by
  have hkey : ∀ key, key ∈ families → key ∈ K := fun _ hkey => h hkey
  unfold back
  rw [List.forall_mem_append]
  exact ⟨adds_family (hkey _ (by decide +kernel)) ft.argon2,
    adds_family (hkey _ (by decide +kernel)) ft.astrobwt⟩

variable {t s : Threads}

/-- One of the generators of RandomX, which are `pre`, itself and `post`. -/
theorem beside_randomx (hrandomx : ft.randomx = true) (hK : families ⊆ K)
    (pre post : List Generator) {g : Generator}
    (hsplit : [likeWow info limit (bytes "rx/arq") .RX_ARQ,
      likeWow info limit (bytes "rx/keva") .RX_KEVA, wow info limit, panthera info limit,
      generate info limit (bytes "rx") .RX_0] = pre ++ g :: post)
    (hpre : ∀ g ∈ pre, Adds K as g) (hpost : ∀ g ∈ post, Adds K as g) :
    ∃ s, Beside K as t s ∧ Beside K as (g.run s).2 (runAll (all info limit) t).2 := by
  rw [all_eq info limit hrandomx, hsplit, List.append_assoc, ← List.append_assoc]
  refine beside_at ?_ ?_
  · exact List.forall_mem_append.mpr ⟨adds_front hK, hpre⟩
  · exact List.forall_mem_append.mpr ⟨hpost, adds_back hK⟩

theorem has_wow_run (hne : ∀ a, (planned info limit a).isEmpty = false) :
    ((wow info limit).run s).2.has (bytes "rx/wow") = true ↔
      s.has (bytes "rx/wow") = true ∨ s.isExist .RX_WOW = false := by
  unfold run wow
  cases hdone : s.isExist .RX_WOW with
  | true => simp [hdone]
  | false => simpa [hdone] using Threads.has_move (hne .RX_WOW)

theorem has_rx_run (hne : ∀ a, (planned info limit a).isEmpty = false) :
    ((generate info limit (bytes "rx") .RX_0).run s).2.has (bytes "rx") = true ↔
      s.has (bytes "rx") = true ∨ s.isExist .RX_0 = false := by
  have hmove : (s.move (bytes "rx") (planned info limit .RX_0)).2.has (bytes "rx") = true :=
    Threads.has_move (hne .RX_0)
  unfold run generate
  cases hdone : s.isExist .RX_0 <;> cases hhas : s.has (bytes "rx") <;>
    simp [hdone, hhas, hmove]

theorem has_panthera_run (hne : ∀ a, (planned info limit a).isEmpty = false)
    (h : s.isExist .RX_XLA = false) :
    ((panthera info limit).run s).2.has (bytes "panthera") = true := by
  have hmove : (s.move (bytes "panthera") (planned info limit .RX_XLA)).2.has
      (bytes "panthera") = true := Threads.has_move (hne .RX_XLA)
  unfold run panthera run generate
  cases hhas : s.has (bytes "panthera") <;> simp [h, hhas, hmove]

/-- An alias is generated where the threads would be the same. -/
theorem mem_aliases_likeWow {profile : List UInt8} :
    (a, profile) ∈ ((likeWow info limit key a).run s).2.aliases.entries ↔
      (a, profile) ∈ s.aliases.entries ∨ s.isExist a = false ∧
        (planned info limit a).isEqual (planned info limit .RX_WOW) = true ∧
        profile = bytes "rx/wow" := by
  unfold run likeWow
  cases hdone : s.isExist a with
  | true => simp [hdone]
  | false =>
      cases hequal : (planned info limit a).isEqual (planned info limit .RX_WOW) with
      | false =>
          have hmove : Beside [key] [] s (s.move key (planned info limit a)).2 :=
            beside_move (List.mem_singleton_self key)
          simpa [hdone, hequal] using hmove.aliases a List.not_mem_nil profile
      | true =>
          have hnone := (not_has_of_not_exist hdone).1
          have hput : (s.setAlias a (bytes "rx/wow")).aliases.entries =
              OrdMap.put Algorithm.before s.aliases.entries a (bytes "rx/wow") := by
            rw [Threads.setAlias_of_not_has hnone]
            exact OrdMap.entries_insert (by simp [hnone])
          simp [hdone, hput, or_comm]

theorem has_likeWow_run (hne : ∀ a, (planned info limit a).isEmpty = false)
    (hexist : s.isExist a = false)
    (hequal : (planned info limit a).isEqual (planned info limit .RX_WOW) = false) :
    ((likeWow info limit key a).run s).2.has key = true := by
  have hmove : (s.move key (planned info limit a)).2.has key = true := Threads.has_move (hne a)
  unfold run likeWow
  simp [hexist, hequal, hmove]

/-- The names of the algorithms of RandomX that no profile is generated for. -/
theorem shortName_rx (h : ft.randomx = true) :
    Algorithm.RX_0.shortName = bytes "rx/0" ∧ Algorithm.RX_SFX.shortName = bytes "rx/sfx" := by
  have hall : ∀ a b c d e f : Bool,
      @Algorithm.shortName ⟨a, b, c, true, d, e, f⟩ .RX_0 = bytes "rx/0" ∧
      @Algorithm.shortName ⟨a, b, c, true, d, e, f⟩ .RX_SFX = bytes "rx/sfx" := by
    decide +kernel
  obtain ⟨a, b, c, d, e, f, g⟩ := ft
  dsimp only at h
  subst h
  exact hall a b c e f g

end

section

variable {info : CpuInfo} {limit : UInt32} {a : Algorithm} (t : Threads)

variable (info limit) in
theorem beside_all (hrandomx : ft.randomx = true) :
    Beside keys [.RX_ARQ, .RX_KEVA] t (runAll (all info limit) t).2 := by
  have hfamilies : families ⊆ keys := by decide +kernel
  rw [all_eq info limit hrandomx]
  refine beside_runAll (List.forall_mem_append.mpr ⟨adds_front hfamilies, ?_⟩)
  refine List.forall_mem_append.mpr ⟨?_, adds_back hfamilies⟩
  simp only [List.forall_mem_cons]
  exact ⟨adds_likeWow (by decide +kernel) (by decide), adds_likeWow (by decide +kernel) (by decide),
    adds_wow (by decide +kernel), adds_panthera (by decide +kernel),
    adds_generate (by decide +kernel), fun _ h => absurd h List.not_mem_nil⟩

theorem family_randomx (hrandomx : ft.randomx = true)
    (ha : a = .RX_0 ∨ a = .RX_WOW ∨ a = .RX_ARQ ∨ a = .RX_SFX ∨ a = .RX_KEVA ∨ a = .RX_XLA) :
    a.family = .RANDOM_X := by
  rcases ha with rfl | rfl | rfl | rfl | rfl | rfl <;>
    simp [Algorithm.family, Algorithm.Family.ifBuilt, hrandomx]

theorem generated_wow (hrandomx : ft.randomx = true)
    (hne : ∀ a, (planned info limit a).isEmpty = false) :
    (runAll (all info limit) t).2.has (bytes "rx/wow") = true ↔
      t.has (bytes "rx/wow") = true ∨ t.isExist .RX_WOW = false := by
  let K := keys.erase (bytes "rx/wow")
  have hname : ∀ key ∈ K, OrdMap.same before key (bytes "rx/wow") = false := by decide +kernel
  obtain ⟨s, hs, hrun⟩ : ∃ s, Beside K [.RX_ARQ, .RX_KEVA] t s ∧ Beside K [.RX_ARQ, .RX_KEVA]
      ((wow info limit).run s).2 (runAll (all info limit) t).2 := by
    refine beside_randomx hrandomx (by decide +kernel)
      [likeWow info limit (bytes "rx/arq") .RX_ARQ, likeWow info limit (bytes "rx/keva") .RX_KEVA]
      [panthera info limit, generate info limit (bytes "rx") .RX_0] rfl ?_ ?_
    · simp only [List.forall_mem_cons]
      exact ⟨adds_likeWow (by decide +kernel) (by decide),
        adds_likeWow (by decide +kernel) (by decide), fun _ h => absurd h List.not_mem_nil⟩
    · simp only [List.forall_mem_cons]
      exact ⟨adds_panthera (by decide +kernel), adds_generate (by decide +kernel),
        fun _ h => absurd h List.not_mem_nil⟩
  have hexist : s.isExist .RX_WOW = t.isExist .RX_WOW :=
    hs.isExist (family_randomx hrandomx (.inr (.inl rfl))) (by decide)
      ((shortName_randomx hrandomx).2.2.1 ▸ hname)
  rw [hrun.has _ hname, has_wow_run hne, hs.has _ hname, hexist]

theorem generated_rx (hrandomx : ft.randomx = true)
    (hne : ∀ a, (planned info limit a).isEmpty = false) :
    (runAll (all info limit) t).2.has (bytes "rx") = true ↔
      t.has (bytes "rx") = true ∨ t.isExist .RX_0 = false := by
  let K := keys.erase (bytes "rx")
  have hname : ∀ key ∈ K, OrdMap.same before key (bytes "rx") = false ∧
      OrdMap.same before key (bytes "rx/0") = false := by decide +kernel
  obtain ⟨s, hs, hrun⟩ : ∃ s, Beside K [.RX_ARQ, .RX_KEVA] t s ∧ Beside K [.RX_ARQ, .RX_KEVA]
      ((generate info limit (bytes "rx") .RX_0).run s).2 (runAll (all info limit) t).2 := by
    refine beside_randomx hrandomx (by decide +kernel)
      [likeWow info limit (bytes "rx/arq") .RX_ARQ, likeWow info limit (bytes "rx/keva") .RX_KEVA,
        wow info limit, panthera info limit] [] rfl ?_ fun _ h => absurd h List.not_mem_nil
    simp only [List.forall_mem_cons]
    exact ⟨adds_likeWow (by decide +kernel) (by decide),
      adds_likeWow (by decide +kernel) (by decide), adds_wow (by decide +kernel),
      adds_panthera (by decide +kernel), fun _ h => absurd h List.not_mem_nil⟩
  have hexist : s.isExist .RX_0 = t.isExist .RX_0 :=
    hs.isExist (family_randomx hrandomx (.inl rfl)) (by decide)
      ((shortName_rx hrandomx).1 ▸ fun key hkey => (hname key hkey).2)
  have hrx : ∀ key ∈ K, OrdMap.same before key (bytes "rx") = false :=
    fun key hkey => (hname key hkey).1
  rw [hrun.has _ hrx, has_rx_run hne, hs.has _ hrx, hexist]

theorem generated_panthera (hrandomx : ft.randomx = true)
    (hne : ∀ a, (planned info limit a).isEmpty = false) (h : t.isExist .RX_XLA = false) :
    (runAll (all info limit) t).2.has (bytes "panthera") = true := by
  let K := keys.erase (bytes "panthera")
  have hname : ∀ key ∈ K, OrdMap.same before key (bytes "panthera") = false := by decide +kernel
  obtain ⟨s, hs, hrun⟩ : ∃ s, Beside K [.RX_ARQ, .RX_KEVA] t s ∧ Beside K [.RX_ARQ, .RX_KEVA]
      ((panthera info limit).run s).2 (runAll (all info limit) t).2 := by
    refine beside_randomx hrandomx (by decide +kernel)
      [likeWow info limit (bytes "rx/arq") .RX_ARQ, likeWow info limit (bytes "rx/keva") .RX_KEVA,
        wow info limit] [generate info limit (bytes "rx") .RX_0] rfl ?_ ?_
    · simp only [List.forall_mem_cons]
      exact ⟨adds_likeWow (by decide +kernel) (by decide),
        adds_likeWow (by decide +kernel) (by decide), adds_wow (by decide +kernel),
        fun _ h => absurd h List.not_mem_nil⟩
    · exact List.forall_mem_singleton.mpr (adds_generate (by decide +kernel))
  have hexist : s.isExist .RX_XLA = t.isExist .RX_XLA :=
    hs.isExist (family_randomx hrandomx (by simp)) (by decide)
      ((shortName_randomx hrandomx).2.2.2 ▸ hname)
  exact hrun.grows.has _ (has_panthera_run hne (hexist.trans h))

/-- What is generated for an algorithm that may share the threads of `rx/wow`. -/
structure Shares (info : CpuInfo) (limit : UInt32) (t t' : Threads) (a : Algorithm) : Prop where
  aliases : ∀ profile, ((a, profile) ∈ t'.aliases.entries ↔ (a, profile) ∈ t.aliases.entries ∨
    t.isExist a = false ∧ (planned info limit a).isEqual (planned info limit .RX_WOW) = true ∧
      profile = bytes "rx/wow")
  own : t.isExist a = false →
    (planned info limit a).isEqual (planned info limit .RX_WOW) = false →
    t'.has a.shortName = true

/-- A generator that is run among others that touch neither its name nor its alias. -/
theorem shares_of_beside {K : List (List UInt8)} {as : List Algorithm} {s t' : Threads}
    (hne : ∀ a, (planned info limit a).isEmpty = false) (hs : Beside K as t s)
    (hrun : Beside K as ((likeWow info limit a.shortName a).run s).2 t') (ha : a ∉ as)
    (hfamily : a.family = .RANDOM_X)
    (hname : ∀ key ∈ K, OrdMap.same before key a.shortName = false) : Shares info limit t t' a := by
  have hexist := hs.isExist hfamily ha hname
  constructor
  · intro profile
    rw [hrun.aliases a ha, mem_aliases_likeWow, hs.aliases a ha, hexist]
  · intro hnone hequal
    exact hrun.grows.has _ (has_likeWow_run hne (hexist.trans hnone) hequal)

variable (info limit) in
theorem generated_shares (hrandomx : ft.randomx = true)
    (hne : ∀ a, (planned info limit a).isEmpty = false) (ha : a = .RX_ARQ ∨ a = .RX_KEVA) :
    Shares info limit t (runAll (all info limit) t).2 a := by
  obtain ⟨harq, hkeva, -, -⟩ := shortName_randomx hrandomx
  obtain rfl | rfl := ha
  · let K := keys.erase (bytes "rx/arq")
    have hname : ∀ key ∈ K, OrdMap.same before key (bytes "rx/arq") = false := by decide +kernel
    obtain ⟨s, hs, hrun⟩ : ∃ s, Beside K [.RX_KEVA] t s ∧ Beside K [.RX_KEVA]
        ((likeWow info limit (bytes "rx/arq") .RX_ARQ).run s).2 (runAll (all info limit) t).2 := by
      refine beside_randomx hrandomx (by decide +kernel) []
        [likeWow info limit (bytes "rx/keva") .RX_KEVA, wow info limit, panthera info limit,
          generate info limit (bytes "rx") .RX_0] rfl (fun _ h => absurd h List.not_mem_nil) ?_
      simp only [List.forall_mem_cons]
      exact ⟨adds_likeWow (by decide +kernel) (by decide), adds_wow (by decide +kernel),
        adds_panthera (by decide +kernel), adds_generate (by decide +kernel),
        fun _ h => absurd h List.not_mem_nil⟩
    rw [← harq] at hrun hname
    exact shares_of_beside t hne hs hrun (by decide) (family_randomx hrandomx (by simp)) hname
  · let K := keys.erase (bytes "rx/keva")
    have hname : ∀ key ∈ K, OrdMap.same before key (bytes "rx/keva") = false := by decide +kernel
    obtain ⟨s, hs, hrun⟩ : ∃ s, Beside K [.RX_ARQ] t s ∧
        Beside K [.RX_ARQ] ((likeWow info limit (bytes "rx/keva") .RX_KEVA).run s).2
          (runAll (all info limit) t).2 := by
      refine beside_randomx hrandomx (by decide +kernel)
        [likeWow info limit (bytes "rx/arq") .RX_ARQ] [wow info limit, panthera info limit,
          generate info limit (bytes "rx") .RX_0] rfl ?_ ?_
      · exact List.forall_mem_singleton.mpr (adds_likeWow (by decide +kernel) (by decide))
      · simp only [List.forall_mem_cons]
        exact ⟨adds_wow (by decide +kernel), adds_panthera (by decide +kernel),
          adds_generate (by decide +kernel), fun _ h => absurd h List.not_mem_nil⟩
    rw [← hkeva] at hrun hname
    exact shares_of_beside t hne hs hrun (by decide) (family_randomx hrandomx (by simp)) hname

end

end Generator

/-! ## Which profile is asked for -/

namespace Threads

variable {t : Threads} {a : Algorithm} {name profile : List UInt8}

/-- Threads, where the profile that is asked for is there. -/
theorem get_not_empty (ht : Filled t) (hname : t.profileName a = some name)
    (hhas : t.has name = true) : (t.get a).isEmpty = false := by
  obtain ⟨threads, hfind⟩ := Option.isSome_iff_exists.mp (OrdMap.isSome_find?.trans hhas)
  obtain ⟨x, hx, -, rfl⟩ := OrdMap.mem_of_find? hfind
  rw [Threads.get, hname, Option.bind_some, hfind]
  exact ht x hx

/-- An alias with its profile, a profile of the algorithm's name, or one of the part before the
slash. -/
theorem get_cases (ht : Filled t) (hwhole : Whole t) (hdisabled : t.isDisabled a = false)
    (h : t.has a.shortName = true ∨ t.aliases.has a = true ∨
      0x2F ∈ a.shortName ∧ t.has (base a.shortName) = true ∨ t.has (bytes "*") = true) :
    (t.get a).isEmpty = false := by
  cases hown : t.has a.shortName with
  | true => exact get_not_empty ht (by simp [profileName, hdisabled, hown]) hown
  | false =>
      cases halias : t.aliases.find? a with
      | some profile =>
          have hmem := (OrdMap.find?_eq_some same_algorithm).mp halias
          exact get_not_empty ht (by simp [profileName, hdisabled, hown, halias]) (hwhole _ hmem)
      | none =>
          have hnone : t.aliases.has a = false := by
            rw [← OrdMap.isSome_find?, halias]
            rfl
          by_cases hbase : 0x2F ∈ a.shortName ∧ t.has (base a.shortName) = true
          · exact get_not_empty ht (by simp [profileName, hdisabled, hown, halias, hbase]) hbase.2
          · by_cases hpanthera : a.shortName = bytes "panthera" ∧ t.has (bytes "rx") = true
            · refine get_not_empty ht ?_ hpanthera.2
              simp only [profileName, hdisabled, hown, halias, if_neg hbase, if_pos hpanthera,
                Bool.false_eq_true, if_false]
            · have hstar : t.has (bytes "*") = true := by simpa [hown, hnone, hbase] using h
              refine get_not_empty ht ?_ hstar
              simp only [profileName, hdisabled, hown, halias, if_neg hbase, if_neg hpanthera,
                hstar, Bool.false_eq_true, if_false, if_true]

omit ft in
theorem not_isMarked (h : ¬ t.IsMarked a) : t.isDisabled a = false ∧ t.aliases.has a = false := by
  simpa [IsMarked] using h

theorem not_isMarked_of_not_exist (h : t.isExist a = false) : ¬ t.IsMarked a := by
  rintro (hmark | hmark) <;> simp [isExist, hmark] at h

/-- An algorithm that is not marked exists by its own profile. -/
theorem isExist_of_not_marked (h : ¬ t.IsMarked a) : t.isExist a = t.has a.shortName := by
  obtain ⟨hdisabled, halias⟩ := not_isMarked h
  simp [isExist, hdisabled, halias]

end Threads

/-! ## Whether all are covered -/

section

variable {info : CpuInfo} {limit : UInt32} {t : Threads} {a : Algorithm}

/-- The algorithms of RandomX. -/
theorem randomx_cases (h : a.family = .RANDOM_X) : ft.randomx = true ∧
    (a = .RX_0 ∨ a = .RX_WOW ∨ a = .RX_ARQ ∨ a = .RX_SFX ∨ a = .RX_KEVA ∨ a = .RX_XLA) := by
  have hbuilt : ∀ {built : Bool} {f : Algorithm.Family},
      Algorithm.Family.ifBuilt built f = .RANDOM_X → built = true ∧ f = .RANDOM_X := by
    intro built f h
    cases built with
    | true => exact ⟨rfl, h⟩
    | false => simp [Algorithm.Family.ifBuilt] at h
  cases a
  case RX_0 | RX_WOW | RX_ARQ | RX_SFX | RX_KEVA | RX_XLA => exact ⟨(hbuilt h).1, by simp⟩
  all_goals
    first
    | exact absurd (hbuilt h).2 (by decide)
    | exact absurd h (by simp [Algorithm.family])

open Generator

/-- An alias misses its profile just where `rx/wow` is lost. -/
theorem whole_generated_iff (hrandomx : ft.randomx = true)
    (hne : ∀ a, (planned info limit a).isEmpty = false) (hwhole : Threads.Whole t) :
    Threads.Whole (runAll (all info limit) t).2 ↔ ¬ LosesWow info limit t := by
  have hbeside := beside_all info limit t hrandomx
  have hwow := generated_wow t hrandomx hne
  constructor
  · rintro h ⟨hexist, hmissing, a, ha, hnone, hequal⟩
    have hmem := ((generated_shares info limit t hrandomx hne ha).aliases _).mpr
      (.inr ⟨hnone, hequal, rfl⟩)
    have hhas := hwow.mp (h _ hmem)
    simp [hmissing, hexist] at hhas
  · rintro h ⟨a, profile⟩ hx
    by_cases ha : a = .RX_ARQ ∨ a = .RX_KEVA
    · have hshares := (generated_shares info limit t hrandomx hne ha).aliases profile
      rcases hshares.mp hx with hx | ⟨hnone, hequal, rfl⟩
      · exact hbeside.grows.has _ (hwhole _ hx)
      · refine hwow.mpr (Classical.or_iff_not_imp_left.mpr fun hmissing => ?_)
        refine Bool.eq_false_iff.mpr fun hexist => h ⟨hexist, ?_, a, ha, hnone, hequal⟩
        simpa using hmissing
    · refine hbeside.grows.has _ (hwhole _ ((hbeside.aliases a ?_ profile).mp hx))
      simpa using ha

/-- The algorithms whose profile or alias is generated. -/
theorem exists_profile (hrandomx : ft.randomx = true)
    (hne : ∀ a, (planned info limit a).isEmpty = false) (hrx : ¬ LosesRx t)
    (hfamily : a.family = .RANDOM_X) (hmarked : ¬ t.IsMarked a) :
    let t' := (runAll (all info limit) t).2
    t'.has a.shortName = true ∨ t'.aliases.has a = true ∨
      0x2F ∈ a.shortName ∧ t'.has (Threads.base a.shortName) = true ∨
      t'.has (bytes "*") = true := by
  intro t'
  have hgrows : Grows t t' := (beside_all info limit t hrandomx).grows
  have hexist := Threads.isExist_of_not_marked hmarked
  cases hown : t.has a.shortName with
  | true => exact .inl (hgrows.has _ hown)
  | false =>
      rw [hown] at hexist
      obtain ⟨-, ha⟩ := randomx_cases hfamily
      obtain ⟨harq, hkeva, hwow, hxla⟩ := shortName_randomx hrandomx
      obtain ⟨h0, hsfx⟩ := shortName_rx hrandomx
      have hshares : ∀ a, a = .RX_ARQ ∨ a = .RX_KEVA → t.isExist a = false →
          t'.has a.shortName = true ∨ t'.aliases.has a = true := by
        intro a ha hexist
        have h := generated_shares info limit t hrandomx hne ha
        cases hequal : (planned info limit a).isEqual (planned info limit .RX_WOW) with
        | false => exact .inl (h.own hexist hequal)
        | true =>
            refine .inr (OrdMap.has_iff.mpr ⟨(a, bytes "rx/wow"), ?_, same_algorithm.mpr rfl⟩)
            exact (h.aliases _).mpr (.inr ⟨hexist, hequal, rfl⟩)
      rcases ha with rfl | rfl | rfl | rfl | rfl | rfl
      · refine .inr (.inr (.inl ?_))
        rw [h0]
        exact ⟨by decide +kernel, (generated_rx t hrandomx hne).mpr (.inr hexist)⟩
      · left
        rw [hwow]
        exact (generated_wow t hrandomx hne).mpr (.inr hexist)
      · exact (hshares _ (.inl rfl) hexist).imp_right .inl
      · refine .inr (.inr (.inl ?_))
        rw [hsfx]
        refine ⟨by decide +kernel, (generated_rx t hrandomx hne).mpr ?_⟩
        simpa [LosesRx, hexist, imp_iff_not_or, or_comm] using hrx
      · exact (hshares _ (.inr rfl) hexist).imp_right .inl
      · left
        rw [hxla]
        exact generated_panthera t hrandomx hne hexist

/-- Neither its own profile nor a fallback is there. -/
theorem sfx_lost (hrandomx : ft.randomx = true)
    (hne : ∀ a, (planned info limit a).isEmpty = false) (hstar : t.has (bytes "*") = false)
    (h : LosesRx t) : (runAll (all info limit) t).2.get .RX_SFX = .empty := by
  obtain ⟨hexist, hrx, hnone⟩ := h
  have hbeside := beside_all info limit t hrandomx
  have hsfx := (shortName_rx hrandomx).2
  have hother : ∀ key ∈ keys, OrdMap.same before key (bytes "rx/sfx") = false ∧
      OrdMap.same before key (bytes "*") = false := by decide +kernel
  have hname : ∀ key ∈ keys, OrdMap.same before key Algorithm.RX_SFX.shortName = false := by
    rw [hsfx]
    exact fun key hkey => (hother key hkey).1
  have hgone := (hbeside.isExist (family_randomx hrandomx (by simp)) (by decide) hname).trans hnone
  have hrx' : (runAll (all info limit) t).2.has (bytes "rx") = false := by
    rw [Bool.eq_false_iff]
    intro hhas
    simpa [hrx, hexist] using (generated_rx t hrandomx hne).mp hhas
  have hstar' : (runAll (all info limit) t).2.has (bytes "*") = false :=
    (hbeside.has _ fun key hkey => (hother key hkey).2).trans hstar
  have hbase : Threads.base Algorithm.RX_SFX.shortName = bytes "rx" := by
    rw [hsfx]
    decide +kernel
  obtain ⟨halias, hown⟩ := not_has_of_not_exist hgone
  have hdisabled : (runAll (all info limit) t).2.isDisabled .RX_SFX = false := by
    simp only [Threads.isExist, Bool.or_eq_false_iff] at hgone
    exact hgone.1.1
  have hfind : (runAll (all info limit) t).2.aliases.find? .RX_SFX = none := by
    rw [← Option.isNone_iff_eq_none, ← Option.not_isSome, OrdMap.isSome_find?]
    simpa using halias
  simp [Threads.get, Threads.profileName, hdisabled, hown, hfind, hbase, hrx', hstar']

/-- Without RandomX no alias is generated. -/
theorem beside_unbuilt (hrandomx : ft.randomx = false) :
    Beside families [] t (runAll (all info limit) t).2 := by
  have hall : all info limit = front info limit ++ back info limit := by
    simp [all, front, back, RANDOM_X, hrandomx]
  rw [hall]
  refine beside_runAll (List.forall_mem_append.mpr ⟨adds_front ?_, adds_back ?_⟩)
  · exact List.Subset.refl _
  · exact List.Subset.refl _

/-- Where no alias is new, none misses its profile. -/
theorem whole_of_beside {keys : List (List UInt8)} {t' : Threads} (h : Beside keys [] t t')
    (hwhole : Threads.Whole t) : Threads.Whole t' := by
  rintro ⟨a, profile⟩ hx
  exact h.grows.has _ (hwhole _ ((h.aliases a List.not_mem_nil profile).mp hx))

end

namespace Config

variable {info : CpuInfo}

theorem threads_generate {c : Config} (h : (c.generate info).enabled = true) :
    (c.generate info).threads = if c.threads.has (bytes "*") then c.threads
      else (Generator.runAll (Generator.all info c.limit) c.threads).2 := by
  unfold generate at h ⊢
  cases henabled : c.enabled <;> cases hstar : c.threads.has (bytes "*") <;>
    simp [henabled, hstar] at h ⊢

/-- The threads of a fresh configuration that has read a value. -/
theorem threads_read {value : Json} (h : (new.read info value).enabled = true) :
    (new.read info value).threads = if (given value).has (bytes "*") then given value
      else (Generator.runAll (Generator.all info (limitOf value)) (given value)).2 := by
  cases value with
  | object members =>
      have hthreads : (new.readMembers (.object members) members).threads =
          given (.object members) := by
        rw [readMembers_new]
        rfl
      have hlimit : (new.readMembers (.object members) members).limit =
          limitOf (.object members) := by
        rw [readMembers_new]
        rfl
      have hread := threads_generate h
      rwa [hthreads, hlimit] at hread
  | _ => exact threads_generate h

/-- The threads that are asked for are there, where no alias misses its profile and there is a
profile or an alias for every algorithm. -/
theorem covers_of {value : Json} {t : Threads} (hfilled : Threads.Filled t)
    (hwhole : Threads.Whole t)
    (h : ∀ a, a.family = .RANDOM_X → ¬ Marked a value → t.isDisabled a = false ∧
      (t.has a.shortName = true ∨ t.aliases.has a = true ∨
        0x2F ∈ a.shortName ∧ t.has (Threads.base a.shortName) = true ∨
        t.has (bytes "*") = true)) : Covers value t where
  aliases x hx := by
    obtain ⟨threads, hfind⟩ :=
      Option.isSome_iff_exists.mp (OrdMap.isSome_find?.trans (hwhole x hx))
    obtain ⟨y, hy, -, rfl⟩ := OrdMap.mem_of_find? hfind
    exact ⟨_, hfind, hfilled y hy⟩
  threads a hfamily hunmarked := by
    obtain ⟨hdisabled, hprofile⟩ := h a hfamily hunmarked
    exact Threads.get_cases hfilled hwhole hdisabled hprofile

theorem covers_whole {value : Json} {t : Threads} (h : Covers value t) : Threads.Whole t := by
  intro x hx
  obtain ⟨threads, hfind, -⟩ := h.aliases x hx
  exact OrdMap.isSome_find?.symm.trans (Option.isSome_iff_exists.mpr ⟨threads, hfind⟩)

theorem valid_of_randomx {a : Algorithm} (h : a.family = .RANDOM_X) : a.isValid = true := by
  obtain ⟨-, ha⟩ := randomx_cases h
  rcases ha with rfl | rfl | rfl | rfl | rfl | rfl <;> simp [Algorithm.isValid, h]

end Config

end Cpu

namespace Cpu.Config

/-- `rx/wow` is disabled, and the algorithms that would share its threads have their own. -/
def ownThreads : Json :=
  .object [(bytes "rx/wow", .bool false), (bytes "rx/arq", .array [.int 0]),
    (bytes "rx/keva", .array [.int 0, .int 1])]

theorem quadInfo_threads (a : Algorithm) (limit : UInt32) : quadInfo.threads a limit ≠ [] :=
  (@BasicCpuInfo.plans defaultFeatures quad (by simp [quad]) (fun _ => by simp [quad]) true
    8388608).not_empty a limit

/-- Only `rx/wow` is disabled. -/
def noWow : Json := .object [(bytes "rx/wow", .bool false)]

end Cpu.Config

end XLArig
