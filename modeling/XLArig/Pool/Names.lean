import XLArig.Pool.Config

/-!
# XLArig.Pool.Names

The names of algorithms and coins, and other strings of the configuration, are read as they
were written.
-/

namespace XLArig

/-! ## Algorithms -/

namespace Algorithm

/-- The build with everything. -/
abbrev fullFeatures : Features := ⟨true, true, true, true, true, true, true⟩

/-- The name that `toJSON` writes for the item. -/
def AlgoName.written (item : AlgoName) : List UInt8 := bytes (item.shortName.getD item.name)

/-- No two algorithms share a name. -/
theorem names_agree : ∀ x ∈ @algorithmNames fullFeatures, ∀ y ∈ @algorithmNames fullFeatures,
    y.isNamed x.written = true → y.id = x.id := by
  decide +kernel

theorem written_isNamed : ∀ x ∈ @algorithmNames fullFeatures,
    x.isNamed x.written = true ∧ x.written ≠ [] := by
  decide +kernel

variable [ft : Features]

theorem algorithmNames_sublist : List.Sublist algorithmNames (@algorithmNames fullFeatures) := by
  have hpart : ∀ {built : Bool} {items : List AlgoName},
      List.Sublist (if built then items else []) items := by
    intro built items
    cases built with
    | true => exact List.Sublist.refl items
    | false => exact List.nil_sublist items
  unfold algorithmNames
  repeat' apply List.Sublist.append
  · exact List.Sublist.refl _
  · exact hpart
  · exact hpart
  · exact hpart
  · exact hpart
  · exact hpart
  · exact hpart
  · exact hpart
  · exact List.Sublist.refl _

/-- The algorithms that the build has a name for are built. -/
theorem isValid_of_mem {x : AlgoName} (hx : x ∈ algorithmNames) : x.id.isValid = true := by
  have hall : ∀ x ∈ algorithmNames, x.id.isValid = true := by
    unfold algorithmNames
    simp only [List.forall_mem_append]
    refine ⟨⟨⟨⟨⟨⟨⟨⟨?_, ?_⟩, ?_⟩, ?_⟩, ?_⟩, ?_⟩, ?_⟩, ?_⟩, ?_⟩
    · simp [isValid, family]
    · split <;> simp_all [isValid, family, Family.ifBuilt]
    · split <;> simp_all [isValid, family, Family.ifBuilt]
    · split <;> simp_all [isValid, family, Family.ifBuilt]
    · split <;> simp_all [isValid, family, Family.ifBuilt]
    · split <;> simp_all [isValid, family, Family.ifBuilt]
    · split <;> simp_all [isValid, family, Family.ifBuilt]
    · split <;> simp_all [isValid, family, Family.ifBuilt]
    · simp [isValid, family]
  exact hall x hx

omit ft in
theorem cstr_written : ∀ x ∈ @algorithmNames fullFeatures, Json.cstr x.written = x.written := by
  decide +kernel

/-- The name of an algorithm is its own. -/
theorem parse_shortName {a : Algorithm} (h : ∃ x ∈ algorithmNames, x.id = a) :
    parse (some (Json.cstr a.shortName)) = a := by
  obtain ⟨x, hfind⟩ : ∃ x, algorithmNames.find? (fun item => item.id == a) = some x := by
    rw [← Option.isSome_iff_exists, List.find?_isSome]
    simpa using h
  have hmem := algorithmNames_sublist.subset (List.mem_of_find?_eq_some hfind)
  have hid : x.id = a := by simpa using List.find?_some hfind
  have hname : a.shortName = x.written := by
    unfold shortName
    simp only [hfind]
    rfl
  obtain ⟨hnamed, hne⟩ := written_isNamed x hmem
  obtain ⟨y, hy⟩ : ∃ y, algorithmNames.find? (fun item => item.isNamed x.written) = some y := by
    rw [← Option.isSome_iff_exists, List.find?_isSome]
    exact ⟨x, List.mem_of_find?_eq_some hfind, hnamed⟩
  have hynamed : y.isNamed x.written = true := by simpa using List.find?_some hy
  have hagree := names_agree x hmem y
    (algorithmNames_sublist.subset (List.mem_of_find?_eq_some hy)) hynamed
  rw [hname, cstr_written x hmem]
  cases hw : x.written with
  | nil => exact absurd hw hne
  | cons c cs =>
      rw [hw] at hy
      simp only [parse, hy, hagree, hid]

/-- What a name stands for is nothing, or an algorithm of the table. -/
theorem parse_cases (t : CString) : parse t = INVALID ∨ ∃ x ∈ algorithmNames, x.id = parse t := by
  unfold parse
  split
  · exact .inl rfl
  · exact .inl rfl
  · split
    · next item hfind => exact .inr ⟨item, List.mem_of_find?_eq_some hfind, rfl⟩
    · exact .inl rfl

end Algorithm

/-! ## Strings -/

namespace Json

/-- A value as a string of the program. -/
def text : Json → CString
  | string s => some (cstr s)
  | _ => none

theorem getString_eq (o : Json) (key : List UInt8) : o.getString key = (o.getValue key).text := by
  unfold getString text
  rfl

theorem cstr_cstr (s : List UInt8) : cstr (cstr s) = cstr s := by
  unfold cstr
  exact List.takeWhile_idem

/-- A string that was read is read again as it was. -/
theorem text_ofCString (x : Json) : (ofCString x.text).text = x.text := by
  cases x with
  | string s => exact congrArg some (cstr_cstr s)
  | _ => rfl

/-- The member of a name that occurs once. -/
theorem getValue_of_mem {members : List (List UInt8 × Json)} {key : List UInt8} {value : Json}
    (hnodup : (members.map Prod.fst).Nodup) (h : (key, value) ∈ members) :
    (object members).getValue key = value := by
  induction members with
  | nil => exact absurd h List.not_mem_nil
  | cons x members ih =>
      rw [List.map_cons, List.nodup_cons] at hnodup
      obtain rfl | h := List.mem_cons.mp h
      · simp [getValue, findMember]
      · have hne : x.1 ≠ key := by
          rintro rfl
          exact hnodup.1 (List.mem_map.mpr ⟨_, h, rfl⟩)
        rw [← ih hnodup.2 h]
        simp [getValue, findMember, hne]

/-- A name that does not occur. -/
theorem getValue_of_not_mem {members : List (List UInt8 × Json)} {key : List UInt8}
    (h : key ∉ members.map Prod.fst) : (object members).getValue key = null := by
  have hnone : members.find? (fun x => x.1 == key) = none := by
    rw [List.find?_eq_none]
    intro x hx heq
    exact h (beq_iff_eq.mp heq ▸ List.mem_map_of_mem hx)
  simp [getValue, findMember, hnone]

end Json

/-! ## Written names -/

/-- An algorithm that was read is read again as it was. -/
theorem Algorithm.parse_toJSON [Features] (t : CString) :
    parse (parse t).toJSON.text = parse t := by
  obtain hnone | hnamed := parse_cases t
  · rw [hnone]
    rfl
  · obtain ⟨x, hx, hid⟩ := hnamed
    have hvalid : (parse t).isValid = true := hid ▸ isValid_of_mem hx
    unfold toJSON
    rw [if_pos hvalid]
    exact parse_shortName ⟨x, hx, hid⟩

theorem Coin.parse_toJSON (c : Coin) : parse c.toJSON.text = c := by
  cases c <;> decide +kernel

end XLArig
