import XLArig.CpuConfig.Generate

/-!
# XLArig.CpuConfig.ReadBack

Profiles, marks and aliases that were written and read again.

Profiles and marks are kept as they are.  An alias whose profile is missing becomes a mark;
neither gives any threads (`ReadBack.get`), and both keep a profile from being generated
(`ReadBack.grows`).
-/

namespace XLArig

namespace Cpu

variable [ft : Features]

namespace Threads

/-! ## What is read -/

/-- The names under which profiles are read are not empty. -/
def Readable (members : List (List UInt8 × Json)) : Prop :=
  ∀ x ∈ members, (x.2.isArray || x.2.isObject) = true →
    (CpuThreads.ofJSON x.2).isEmpty = false → Json.cstr x.1 ≠ []

/-- No alias misses its profile. -/
def Whole (t : Threads) : Prop := ∀ x ∈ t.aliases.entries, t.has x.2 = true

section

variable {t : Threads} {member : List UInt8 × Json} {members : List (List UInt8 × Json)}

omit ft in
variable (t member) in
theorem readProfile_cases : t.readProfile member = t ∨ ∃ name threads,
    CpuThreads.isEmpty threads = false ∧
      t.readProfile member = { t with profiles := t.profiles.insert name threads } := by
  unfold readProfile
  split
  · dsimp only
    split
    · exact .inl rfl
    · obtain heq | ⟨hne, heq⟩ := move_cases t (Json.cstr member.1) (CpuThreads.ofJSON member.2)
      · exact .inl heq
      · exact .inr ⟨_, _, hne, heq⟩
  · exact .inl rfl

omit ft in
theorem aliases_readProfile : (t.readProfile member).aliases = t.aliases := by
  obtain heq | ⟨name, threads, -, heq⟩ := readProfile_cases t member <;> rw [heq]

theorem sound_readProfile (ht : Sound t) (haliases : t.aliases.entries = [])
    (hname : (member.2.isArray || member.2.isObject) = true →
      (CpuThreads.ofJSON member.2).isEmpty = false → Json.cstr member.1 ≠ []) :
    Sound (t.readProfile member) := by
  unfold readProfile
  split
  · next hprofile =>
    dsimp only
    split
    · exact ht
    · next hne =>
      have hempty := Bool.eq_false_iff.mpr hne
      have hkept : Kept (Json.cstr member.1) (CpuThreads.ofJSON member.2) :=
        ⟨hname hprofile hempty, Json.cstr_cstr _, hempty, CpuThreads.ofJSON_toJSON hempty⟩
      refine sound_move ht (fun _ => hkept) fun x hx => ?_
      rw [haliases] at hx
      exact absurd hx List.not_mem_nil
  · exact ht

theorem sound_readProfiles (ht : Sound t) (haliases : t.aliases.entries = [])
    (hmembers : Readable members) : Sound (members.foldl readProfile t) ∧
      (members.foldl readProfile t).aliases.entries = [] := by
  induction members generalizing t with
  | nil => exact ⟨ht, haliases⟩
  | cons member members ih =>
      obtain ⟨hmember, hrest⟩ := List.forall_mem_cons.mp hmembers
      exact ih (sound_readProfile ht haliases hmember) (by rwa [aliases_readProfile]) hrest

theorem named_parse (text : CString) (h : (Algorithm.parse text).isValid = true) :
    (Algorithm.parse text).Named := by
  obtain hnone | hnamed := Algorithm.parse_cases text
  · simp [hnone, Algorithm.isValid] at h
  · exact hnamed

variable (member) in
/-- An alias is taken where there is a profile for it. -/
theorem sound_readMark (ht : Sound t) : Sound (t.readMark member) := by
  unfold readMark
  split
  · exact ht
  · dsimp only
    split
    · exact ht
    · next hvalid =>
      have hnamed := named_parse (some (Json.cstr member.1)) (by simpa using hvalid)
      split
      · exact sound_disable ht hnamed
      · next s _ =>
        split
        · next hhas =>
          refine sound_alias ht hnamed (Json.cstr_cstr s) fun hmissing => ?_
          simp [hhas] at hmissing
        · exact sound_disable ht hnamed
      · exact ht

variable (member) in
theorem whole_readMark (hwhole : Whole t) : Whole (t.readMark member) := by
  unfold readMark
  split
  · exact hwhole
  · dsimp only
    split
    · exact hwhole
    · split
      · exact hwhole
      · split
        · next hhas =>
          intro x hx
          obtain rfl | hx := OrdMap.mem_insert hx
          · exact hhas
          · exact hwhole x hx
        · exact hwhole
      · exact hwhole

theorem sound_readMarks (ht : Sound t) : Sound (members.foldl readMark t) := by
  induction members generalizing t with
  | nil => exact ht
  | cons member members ih => exact ih (sound_readMark member ht)

theorem whole_readMarks (hwhole : Whole t) : Whole (members.foldl readMark t) := by
  induction members generalizing t with
  | nil => exact hwhole
  | cons member members ih => exact ih (whole_readMark member hwhole)

theorem sound_empty : Sound empty where
  profiles _ h := absurd h List.not_mem_nil
  disabled _ h := absurd h List.not_mem_nil
  named _ h := absurd h List.not_mem_nil
  dangling _ h := absurd h List.not_mem_nil

/-- What is read can be written. -/
theorem sound_read (hmembers : Readable members) : Sound (empty.read members) :=
  sound_readMarks (sound_readProfiles sound_empty rfl hmembers).1

end

/-! ## What is read back -/

section

variable {t s : Threads} {members : List (List UInt8 × Json)}

/-- A setting: neither a profile nor the name of an algorithm. -/
def Skipped (member : List UInt8 × Json) : Prop :=
  (member.2.isArray || member.2.isObject) = false ∧
    (Algorithm.parse (some (Json.cstr member.1))).isValid = false

omit ft in
theorem readProfile_skipped (h : ∀ x ∈ members, (x.2.isArray || x.2.isObject) = false) :
    members.foldl readProfile t = t := by
  induction members with
  | nil => rfl
  | cons x members ih =>
      obtain ⟨hx, hrest⟩ := List.forall_mem_cons.mp h
      simpa [readProfile, hx] using ih hrest

theorem readMark_skipped (h : ∀ x ∈ members, Skipped x) : members.foldl readMark t = t := by
  induction members with
  | nil => rfl
  | cons x members ih =>
      obtain ⟨⟨hmember, hname⟩, hrest⟩ := List.forall_mem_cons.mp h
      simpa [readMark, hmember, hname] using ih hrest

omit ft in
theorem toJSON_isProfile (p : CpuThreads) : (p.toJSON.isArray || p.toJSON.isObject) = true := by
  unfold CpuThreads.toJSON
  split <;> rfl

omit ft in
theorem readProfile_kept {name : List UInt8} {p : CpuThreads} (h : Kept name p) :
    t.readProfile (name, p.toJSON) = { t with profiles := t.profiles.insert name p } := by
  simp only [readProfile, toJSON_isProfile, if_true, h.reads, h.not_empty, h.cstr_name,
    Bool.false_eq_true, if_false]
  cases hhas : t.has name with
  | true => rw [move_of_has hhas, OrdMap.insert_of_has hhas]
  | false => rw [move_not_empty hhas h.not_empty]

omit ft in
theorem readProfiles_kept {l : List (List UInt8 × CpuThreads)} (h : ∀ x ∈ l, Kept x.1 x.2) :
    (l.map fun x => (x.1, x.2.toJSON)).foldl readProfile t =
      { t with profiles := l.foldl (fun m x => m.insert x.1 x.2) t.profiles } := by
  induction l generalizing t with
  | nil => rfl
  | cons x l ih =>
      obtain ⟨hx, hl⟩ := List.forall_mem_cons.mp h
      simp only [List.map_cons, List.foldl_cons, readProfile_kept hx, ih hl]

theorem readMark_profile {l : List (List UInt8 × CpuThreads)} :
    (l.map fun x => (x.1, x.2.toJSON)).foldl readMark t = t := by
  induction l with
  | nil => rfl
  | cons x l ih =>
      have hskip : t.readMark (x.1, x.2.toJSON) = t := by
        simp [readMark, toJSON_isProfile]
      rw [List.map_cons, List.foldl_cons, hskip, ih]

/-- The name of an algorithm is read as that algorithm. -/
theorem parse_named {a : Algorithm} (h : a.Named) :
    Algorithm.parse (some (Json.cstr a.shortName)) = a ∧ a.isValid = true := by
  refine ⟨Algorithm.parse_shortName h, ?_⟩
  obtain ⟨x, hx, rfl⟩ := h
  exact Algorithm.isValid_of_mem hx

theorem readMark_disabled {a : Algorithm} (h : a.Named) :
    t.readMark (a.shortName, .bool false) = t.disable a := by
  obtain ⟨hparse, hvalid⟩ := parse_named h
  simp [readMark, hparse, hvalid, Json.isArray, Json.isObject]

theorem readMark_alias {a : Algorithm} {profile : List UInt8} (h : a.Named)
    (hprofile : Json.cstr profile = profile) : t.readMark (a.shortName, .string profile) =
      if t.has profile then { t with aliases := t.aliases.insert a profile } else t.disable a := by
  obtain ⟨hparse, hvalid⟩ := parse_named h
  simp [readMark, hparse, hvalid, hprofile, Json.isArray, Json.isObject]

theorem readMarks_disabled {l : List (Algorithm × Unit)} (h : ∀ x ∈ l, x.1.Named) :
    (l.map fun x => (x.1.shortName, Json.bool false)).foldl readMark t =
      { t with disabled := l.foldl (fun m x => m.insert x.1 x.2) t.disabled } := by
  induction l generalizing t with
  | nil => rfl
  | cons x l ih =>
      obtain ⟨hx, hl⟩ := List.forall_mem_cons.mp h
      simp only [List.map_cons, List.foldl_cons, readMark_disabled hx, ih hl]
      rfl

/-- The aliases with a profile stay, the others become marks. -/
theorem readMarks_aliases {l : List (Algorithm × List UInt8)}
    (h : ∀ x ∈ l, x.1.Named ∧ Json.cstr x.2 = x.2) :
    (l.map fun x => (x.1.shortName, Json.string x.2)).foldl readMark t =
      { profiles := t.profiles
        aliases := (l.filter fun x => t.has x.2).foldl (fun m x => m.insert x.1 x.2) t.aliases
        disabled := ((l.filter fun x => !t.has x.2).map fun x => (x.1, ())).foldl
          (fun m x => m.insert x.1 x.2) t.disabled } := by
  induction l generalizing t with
  | nil => rfl
  | cons x l ih =>
      obtain ⟨⟨hnamed, hprofile⟩, hl⟩ := List.forall_mem_cons.mp h
      rw [List.map_cons, List.foldl_cons, readMark_alias hnamed hprofile]
      cases hhas : t.has x.2 with
      | true =>
          have hkept : (x :: l).filter (fun x => t.has x.2) = x :: l.filter fun x => t.has x.2 :=
            List.filter_cons_of_pos hhas
          have hlost : (x :: l).filter (fun x => !t.has x.2) = l.filter fun x => !t.has x.2 :=
            List.filter_cons_of_neg (by simp [hhas])
          rw [if_pos rfl, ih hl, hkept, hlost]
          rfl
      | false =>
          have hkept : (x :: l).filter (fun x => t.has x.2) = l.filter fun x => t.has x.2 :=
            List.filter_cons_of_neg (by simp [hhas])
          have hlost : (x :: l).filter (fun x => !t.has x.2) = x :: l.filter fun x => !t.has x.2 :=
            List.filter_cons_of_pos (by simp [hhas])
          rw [if_neg Bool.false_ne_true, ih hl, hkept, hlost]
          rfl

/-- What is the same in profiles that were written and read, and how they differ. -/
structure ReadBack (t s : Threads) : Prop where
  profiles : s.profiles = t.profiles
  isDisabled : ∀ a, s.isDisabled a = true ↔
    t.isDisabled a = true ∨ ∃ x ∈ t.aliases.entries, x.1 = a ∧ t.has x.2 = false
  aliases : s.aliases.entries = t.aliases.entries.filter fun x => t.has x.2

theorem readBack (ht : Sound t) {settings : List (List UInt8 × Json)}
    (hsettings : ∀ x ∈ settings, Skipped x) : ReadBack t (empty.read (settings ++ t.toJSON)) := by
  have hprofiles : (settings ++ t.toJSON).foldl readProfile empty =
      { empty with profiles := t.profiles } := by
    have hmarks : ∀ x ∈ t.disabledMembers ++ t.aliasMembers,
        (x.2.isArray || x.2.isObject) = false := by
      intro x hx
      obtain hx | hx := List.mem_append.mp hx
      · obtain ⟨_, -, rfl⟩ := List.mem_map.mp hx
        rfl
      · obtain ⟨_, -, rfl⟩ := List.mem_map.mp hx
        rfl
    rw [toJSON, List.append_assoc, List.foldl_append, List.foldl_append,
      readProfile_skipped fun x hx => (hsettings x hx).1, readProfile_skipped hmarks,
      profileMembers, readProfiles_kept ht.profiles]
    exact congrArg (Threads.mk _ · _) (OrdMap.foldl_insert_empty t.profiles)
  have hread : empty.read (settings ++ t.toJSON) =
      { profiles := t.profiles
        aliases := (t.aliases.entries.filter fun x => t.has x.2).foldl
          (fun m x => m.insert x.1 x.2) .empty
        disabled := ((t.aliases.entries.filter fun x => !t.has x.2).map fun x => (x.1, ())).foldl
          (fun m x => m.insert x.1 x.2) t.disabled } := by
    rw [read, hprofiles, toJSON, List.foldl_append, List.foldl_append, List.foldl_append,
      readMark_skipped hsettings, profileMembers, readMark_profile, disabledMembers,
      readMarks_disabled ht.disabled, aliasMembers, readMarks_aliases ht.named]
    have hdisabled : t.disabled.entries.foldl (fun m x => m.insert x.1 x.2) empty.disabled =
        t.disabled := OrdMap.foldl_insert_empty t.disabled
    rw [hdisabled]
    rfl
  rw [hread]
  refine ⟨rfl, fun a => ?_, ?_⟩
  · have hhas := OrdMap.has_foldl_insert (m := t.disabled) (k := a) same_algorithm
      (l := (t.aliases.entries.filter fun x => !t.has x.2).map fun x => (x.1, ()))
    simp only [isDisabled, hhas, List.mem_map, List.mem_filter, Bool.not_eq_true']
    constructor
    · rintro (hdisabled | ⟨_, ⟨x, ⟨hx, hmissing⟩, rfl⟩, rfl⟩)
      · exact .inl hdisabled
      · exact .inr ⟨x, hx, rfl, hmissing⟩
    · rintro (hdisabled | ⟨x, hx, rfl, hmissing⟩)
      · exact .inl hdisabled
      · exact .inr ⟨_, ⟨x, ⟨hx, hmissing⟩, rfl⟩, rfl⟩
  · exact OrdMap.entries_foldl_insert (m := .empty) (t.aliases.sorted.sublist List.filter_sublist)

omit ft in
theorem ReadBack.has (h : ReadBack t s) (profile : List UInt8) : s.has profile = t.has profile :=
  congrArg (OrdMap.has · profile) h.profiles

omit ft in
/-- An alias stays just when it has its profile. -/
theorem ReadBack.find? (h : ReadBack t s) (a : Algorithm) :
    s.aliases.find? a = (t.aliases.find? a).filter t.has := by
  ext profile
  rw [OrdMap.find?_eq_some same_algorithm, h.aliases, List.mem_filter, Option.filter_eq_some_iff,
    OrdMap.find?_eq_some same_algorithm]

omit ft in
/-- What is switched off, by the alias that there was. -/
theorem ReadBack.isDisabled_iff (h : ReadBack t s) (a : Algorithm) : s.isDisabled a = true ↔
    t.isDisabled a = true ∨ ∃ profile, t.aliases.find? a = some profile ∧ t.has profile = false := by
  simp only [h.isDisabled a, OrdMap.find?_eq_some same_algorithm]
  refine or_congr_right ⟨?_, fun ⟨profile, hmem, hmissing⟩ => ⟨_, hmem, rfl, hmissing⟩⟩
  rintro ⟨x, hx, rfl, hmissing⟩
  exact ⟨x.2, hx, hmissing⟩

/-- What is there is there again. -/
theorem ReadBack.grows (h : ReadBack t s) : Grows t s where
  has profile hp := (h.has profile).trans hp
  isExist a ha := by
    rw [isExist_iff] at ha ⊢
    rw [h.isDisabled_iff, h.has, ← OrdMap.isSome_find?, h.find?]
    rw [← OrdMap.isSome_find?] at ha
    obtain hdisabled | halias | hname := ha
    · exact .inl (.inl hdisabled)
    · obtain ⟨profile, hfind⟩ := Option.isSome_iff_exists.mp halias
      cases hhas : t.has profile with
      | true => exact .inr (.inl (by simp [hfind, hhas]))
      | false => exact .inl (.inr ⟨profile, hfind, hhas⟩)
    · exact .inr (.inr hname)

theorem get_of_disabled {a : Algorithm} (h : t.isDisabled a = true) : t.get a = .empty := by
  simp [Threads.get, profileName, h]

/-- An alias without its profile gives no threads. -/
theorem get_of_missing (ht : Sound t) {a : Algorithm} {profile : List UInt8}
    (hfind : t.aliases.find? a = some profile) (hmissing : t.has profile = false) :
    t.get a = .empty := by
  obtain ⟨-, hname⟩ := ht.dangling _ ((OrdMap.find?_eq_some same_algorithm).mp hfind) hmissing
  have hnone : t.profiles.find? profile = none := by
    rw [← Option.isNone_iff_eq_none, ← Option.not_isSome, OrdMap.isSome_find?]
    simpa [Threads.has] using hmissing
  cases hdisabled : t.isDisabled a with
  | true => exact get_of_disabled hdisabled
  | false => simp [Threads.get, profileName, hdisabled, hname, hfind, hnone]

/-- And it gives the same threads. -/
theorem ReadBack.get (h : ReadBack t s) (ht : Sound t) (a : Algorithm) : s.get a = t.get a := by
  cases hdisabled : t.isDisabled a with
  | true => rw [get_of_disabled hdisabled, get_of_disabled ((h.isDisabled_iff a).mpr (.inl hdisabled))]
  | false =>
      by_cases hmissing : ∃ profile, t.aliases.find? a = some profile ∧ t.has profile = false
      · obtain ⟨profile, hfind, hhas⟩ := hmissing
        rw [get_of_missing ht hfind hhas,
          get_of_disabled ((h.isDisabled_iff a).mpr (.inr ⟨profile, hfind, hhas⟩))]
      · have hs : s.isDisabled a = false := by
          rw [Bool.eq_false_iff, Ne, h.isDisabled_iff, hdisabled]
          simpa using hmissing
        have hfind : s.aliases.find? a = t.aliases.find? a := by
          rw [h.find?]
          cases hsome : t.aliases.find? a with
          | none => rfl
          | some profile =>
              have hhas : t.has profile = true := by
                simpa using fun hfalse => hmissing ⟨profile, hsome, hfalse⟩
              simp [hhas]
        have hname : s.profileName a = t.profileName a := by
          simp only [profileName, hs, hdisabled, hfind, h.has]
        rw [Threads.get, hname, h.profiles, Threads.get]

end

end Threads

end Cpu

end XLArig
