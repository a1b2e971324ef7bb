import XLArig.Dmi.Decode

/-!
# XLArig.Dmi.WellFormed

Which tables `DmiReader::decode` reads safely, and which it reads right.

A well-formed table is written structure by structure (`Structure.encode`).  What the code does
with any table is said by the structures that `split` finds in it.
-/

namespace XLArig

namespace Dmi

open Terminated

/-! ## Structures -/

/-- A structure of SMBIOS. -/
structure Structure where
  type : UInt8
  handle : UInt8 × UInt8
  /-- The formatted area behind the header. -/
  body : List UInt8
  strings : List (List UInt8)
  fits : body.length + 4 < 256
  ended : ∀ s ∈ strings, s ≠ [] ∧ 0 ∉ s

/-- The strings of a memory device, by their numbers: those that are reported. -/
def textsOf (area : List UInt8) (string : UInt8 → CString) : Texts :=
  if area.length < 0x15 then {}
  else if moduleSize area = 0 ∨ area.length < 0x1B then
    { slot := string (byteAt area 0x10), bank := string (byteAt area 0x11) }
  else
    { slot := string (byteAt area 0x10), bank := string (byteAt area 0x11),
      vendor := string (byteAt area 0x17), product := string (byteAt area 0x1A) }

/-- The numbers of the strings that are looked up for a memory device. -/
def memoryNumbers (area : List UInt8) : List UInt8 :=
  if area.length < 0x15 then []
  else if moduleSize area = 0 ∨ area.length < 0x1B then [byteAt area 0x10, byteAt area 0x11]
  else [byteAt area 0x10, byteAt area 0x11, byteAt area 0x17, byteAt area 0x1A]

/-- The numbers of the strings that are looked up for a structure. -/
def numbers (type : UInt8) (area : List UInt8) : List UInt8 :=
  if type = 17 then memoryNumbers area
  else if (type = 1 ∨ type = 2) ∧ 0x08 ≤ area.length then [byteAt area 0x04, byteAt area 0x05]
  else []

namespace Structure

def area (s : Structure) : List UInt8 :=
  s.type :: .ofNat (s.body.length + 4) :: s.handle.1 :: s.handle.2 :: s.body

/-- The strings, each with a zero behind, and one more; two zeros if there are none. -/
def stringSet (s : Structure) : List UInt8 :=
  if s.strings = [] then [0, 0] else s.strings.flatMap (fun p => p ++ [0]) ++ [0]

def encode (s : Structure) : List UInt8 := s.area ++ s.stringSet

/-- The string with a number: 0 is none. -/
def string (s : Structure) (n : UInt8) : CString :=
  if n = 0 then none else (s.strings[n.toNat - 1]?).map (List.map dot)

def texts (s : Structure) : Texts := textsOf s.area s.string

end Structure

/-- The table of the structures `ss`, to its end or to a structure of type 127. -/
def WellFormed (t : List UInt8) (ss : List Structure) : Prop :=
  ∃ tail, t = ss.flatMap Structure.encode ++ tail ∧ (tail = [] ∨ ∃ s ∈ ss, s.type = 127)

/-- The structures before the first one of type 127. -/
def listed (ss : List Structure) : List Structure := ss.takeWhile fun s => s.type ≠ 127

/-- The memory devices. -/
def devices (ss : List Structure) : List Structure := (listed ss).filter fun s => s.type = 17

/-! ## What is asked of a table -/

/-- The table is decoded without a fault, and if it is well formed, the memory devices are its
structures of type 17, with their strings. -/
def Decodes (apple : Bool) (t : List UInt8) : Prop :=
  ∃ r, DmiReader.decode apple {} (some t) = .ok (true, r) ∧
    ∀ ss, WellFormed t ss → r.memory.map DmiMemory.texts = (devices ss).map Structure.texts

namespace Entry

/-- The string with a number, where 0 stands for 1. -/
def string (x : Entry) (n : UInt8) : CString :=
  ((Terminated.texts 0 x.rest)[n.toNat - 1]?).map (List.map dot)

/-- The string with this number ends inside the table, or there is an empty one before it. -/
def Reaches (x : Entry) (n : UInt8) : Prop :=
  [] ∈ pieces 0 x.rest ∨ n.toNat - 1 < (pieces 0 x.rest).length

/-- The structure names strings that end inside the table; a memory device names a slot, and a
bank unless its slot tells the channel. -/
structure Fine (x : Entry) : Prop where
  reaches : ∀ n ∈ numbers x.type x.area, x.Reaches n
  named : x.type = 17 → 0x15 ≤ x.area.length →
    ∃ slot, x.string (byteAt x.area 0x10) = some slot ∧
      (matchSlot slot ≠ none ∨ x.string (byteAt x.area 0x11) ≠ none)

end Entry

/-- The structures of a table, as far as it can be cut. -/
def structures (apple : Bool) (t : List UInt8) : List Entry × Option Entry :=
  split apple (t.length + 1) 0 t

/-- The structures that end are fine, and so is a last one if it is taken for one that ends. -/
structure Readable (apple : Bool) (t : List UInt8) : Prop where
  ended : ∀ x ∈ (structures apple t).1, x.Fine
  last : ∀ x ∈ (structures apple t).2, x.stop + 1 < 2 ^ 32 ∧ (x.Taken apple t.length → x.Fine)

/-- No memory device of a well-formed table refers to string 0. -/
def Numbered (t : List UInt8) : Prop :=
  ∀ ss, WellFormed t ss → ∀ s ∈ devices ss, ∀ n ∈ memoryNumbers s.area, n ≠ 0

/-! ## Structures that are read -/

section

variable {x : Entry} {n : UInt8} {l : List UInt8}

theorem texts_eq_pieces (h : [] ∉ pieces 0 l) : Terminated.texts 0 l = pieces 0 l := by
  rw [Terminated.texts, List.takeWhile_eq_self_iff]
  intro p hp
  have hne : p ≠ [] := fun heq => h (heq ▸ hp)
  simpa using hne

/-- A string that ends in the table is found, or there is none. -/
theorem textAt_of_reaches (h : x.Reaches n) : textAt x.rest n = .ok (x.string n) := by
  rw [textAt, Entry.string]
  cases htext : (Terminated.texts 0 x.rest)[n.toNat - 1]? with
  | some p => rfl
  | none =>
      have hmem : [] ∈ pieces 0 x.rest := by
        refine h.elim id fun hlt => ?_
        by_contra hnot
        rw [texts_eq_pieces hnot, List.getElem?_eq_getElem hlt] at htext
        cases htext
      simp only [if_pos hmem, Option.map_none]

theorem textAt_of_not_reaches (h : ¬ x.Reaches n) : textAt x.rest n = .error .outside := by
  obtain ⟨hmem, hlt⟩ : [] ∉ pieces 0 x.rest ∧ ¬ n.toNat - 1 < (pieces 0 x.rest).length :=
    not_or.mp h
  have htext : (Terminated.texts 0 x.rest)[n.toNat - 1]? = none := by
    rw [texts_eq_pieces hmem, List.getElem?_eq_none (by omega)]
  rw [textAt, htext]
  simp only [if_neg hmem]

/-- Which strings the patterns can be matched with. -/
theorem idOf_iff (slot bank : CString) :
    ((∃ id, DmiMemory.idOf slot bank = .ok id) ↔
      ∃ s, slot = some s ∧ (matchSlot s ≠ none ∨ bank ≠ none)) ∧
    ∀ e, DmiMemory.idOf slot bank = .error e → e = .null := by
  cases slot with
  | none => simp [DmiMemory.idOf]
  | some s =>
      cases hm : matchSlot s with
      | some p => simp [DmiMemory.idOf, hm]
      | none =>
          cases bank with
          | none => simp [DmiMemory.idOf, hm]
          | some k => simp [DmiMemory.idOf, hm]

/-- A fault of `decode`: the loop is not given up. -/
def Faulty {α : Type} (o : Except Fault α) : Prop := o = .error .outside ∨ o = .error .null

theorem Faulty.bind {α β : Type} {o : Except Fault α} (h : Faulty o) (f : α → Except Fault β) :
    Faulty (o >>= f) := by
  obtain rfl | rfl := h
  · exact .inl rfl
  · exact .inr rfl

theorem faulty_textAt (h : ¬ x.Reaches n) : Faulty (textAt x.rest n) :=
  .inl (textAt_of_not_reaches h)

/-- What is looked up for a memory device, in order. -/
theorem idTexts_cases (x : Entry) :
    (x.Reaches (byteAt x.area 0x10) ∧ x.Reaches (byteAt x.area 0x11) ∧
      (∃ slot, x.string (byteAt x.area 0x10) = some slot ∧
        (matchSlot slot ≠ none ∨ x.string (byteAt x.area 0x11) ≠ none)) ∧
      idTexts x.area (textAt x.rest) =
        .ok { slot := x.string (byteAt x.area 0x10), bank := x.string (byteAt x.area 0x11) }) ∨
    (¬ (x.Reaches (byteAt x.area 0x10) ∧ x.Reaches (byteAt x.area 0x11) ∧
      ∃ slot, x.string (byteAt x.area 0x10) = some slot ∧
        (matchSlot slot ≠ none ∨ x.string (byteAt x.area 0x11) ≠ none)) ∧
      Faulty (idTexts x.area (textAt x.rest))) := by
  rw [idTexts]
  by_cases h1 : x.Reaches (byteAt x.area 0x10)
  · rw [textAt_of_reaches h1]
    by_cases h2 : x.Reaches (byteAt x.area 0x11)
    · rw [textAt_of_reaches h2]
      obtain ⟨hiff, herror⟩ := idOf_iff (x.string (byteAt x.area 0x10))
        (x.string (byteAt x.area 0x11))
      cases hid : DmiMemory.idOf (x.string (byteAt x.area 0x10)) (x.string (byteAt x.area 0x11)) with
      | ok id =>
          refine .inl ⟨h1, h2, hiff.mp ⟨id, hid⟩, ?_⟩
          change (DmiMemory.idOf _ _ >>= fun _ => _) = _
          rw [hid]
          rfl
      | error e =>
          refine .inr ⟨fun h => ?_, ?_⟩
          · obtain ⟨id, hok⟩ := hiff.mpr h.2.2
            rw [hid] at hok
            cases hok
          · change Faulty (DmiMemory.idOf _ _ >>= fun _ => _)
            exact Faulty.bind (.inr (by rw [hid, herror e hid])) _
    · exact .inr ⟨fun h => h2 h.2.1, (faulty_textAt h2).bind _⟩
  · exact .inr ⟨fun h => h1 h.1, (faulty_textAt h1).bind _⟩

theorem memoryTexts_cases (h17 : x.type = 17) :
    (x.Fine ∧ memoryTexts x.area (textAt x.rest) = .ok (textsOf x.area x.string)) ∨
    (¬ x.Fine ∧ Faulty (memoryTexts x.area (textAt x.rest))) := by
  have hnumbers : numbers x.type x.area = memoryNumbers x.area := if_pos h17
  by_cases hshort : x.area.length < 0x15
  · refine .inl ⟨⟨fun n hn => ?_, fun _ hlen => absurd hlen (by omega)⟩, ?_⟩
    · rw [hnumbers, memoryNumbers, if_pos hshort] at hn
      simp at hn
    · rw [memoryTexts, textsOf, if_pos hshort, if_pos hshort]
  rw [memoryTexts, textsOf, if_neg hshort, if_neg hshort]
  obtain ⟨h1, h2, hnamed, hids⟩ | ⟨hnot, hids⟩ := idTexts_cases x
  · rw [hids]
    by_cases hfew : moduleSize x.area = 0 ∨ x.area.length < 0x1B
    · refine .inl ⟨⟨fun n hn => ?_, fun _ _ => hnamed⟩, ?_⟩
      · rw [hnumbers, memoryNumbers, if_neg hshort, if_pos hfew] at hn
        simp only [List.mem_cons, List.not_mem_nil, or_false] at hn
        obtain rfl | rfl := hn
        · exact h1
        · exact h2
      · rw [if_pos hfew]
        exact if_pos hfew
    · have hmem : ∀ n ∈ [byteAt x.area 0x10, byteAt x.area 0x11, byteAt x.area 0x17,
          byteAt x.area 0x1A], n ∈ numbers x.type x.area := by
        intro n hn
        rwa [hnumbers, memoryNumbers, if_neg hshort, if_neg hfew]
      rw [if_neg hfew]
      change (_ ∧ (if _ then _ else _) = _) ∨ (_ ∧ Faulty (if _ then _ else _))
      rw [if_neg hfew]
      by_cases h3 : x.Reaches (byteAt x.area 0x17)
      · rw [textAt_of_reaches h3]
        by_cases h4 : x.Reaches (byteAt x.area 0x1A)
        · rw [textAt_of_reaches h4]
          refine .inl ⟨⟨fun n hn => ?_, fun _ _ => hnamed⟩, rfl⟩
          rw [hnumbers, memoryNumbers, if_neg hshort, if_neg hfew] at hn
          simp only [List.mem_cons, List.not_mem_nil, or_false] at hn
          obtain rfl | rfl | rfl | rfl := hn <;> assumption
        · exact .inr ⟨fun h => h4 (h.reaches _ (hmem _ (by simp))), (faulty_textAt h4).bind _⟩
      · exact .inr ⟨fun h => h3 (h.reaches _ (hmem _ (by simp))), (faulty_textAt h3).bind _⟩
  · refine .inr ⟨fun h => hnot ?_, hids.bind _⟩
    have hmem : ∀ n ∈ [byteAt x.area 0x10, byteAt x.area 0x11], n ∈ numbers x.type x.area := by
      intro n hn
      rw [hnumbers, memoryNumbers, if_neg hshort]
      split
      · exact hn
      · simp only [List.mem_cons, List.not_mem_nil, or_false] at hn ⊢
        tauto
    exact ⟨h.reaches _ (hmem _ (by simp)), h.reaches _ (hmem _ (by simp)), h.named h17 (by omega)⟩

theorem boardTexts_cases (hboard : x.type = 1 ∨ x.type = 2) :
    (x.Fine ∧ boardTexts x.area (textAt x.rest) = .ok ()) ∨
    (¬ x.Fine ∧ Faulty (boardTexts x.area (textAt x.rest))) := by
  have h17 : x.type ≠ 17 := by
    rintro h
    rw [h] at hboard
    simp at hboard
  rw [boardTexts]
  by_cases hshort : x.area.length < 0x08
  · refine .inl ⟨⟨fun n hn => ?_, fun h => absurd h h17⟩, if_pos hshort⟩
    rw [numbers, if_neg h17, if_neg (by omega)] at hn
    simp at hn
  · have hnumbers : numbers x.type x.area = [byteAt x.area 0x04, byteAt x.area 0x05] := by
      rw [numbers, if_neg h17, if_pos ⟨hboard, by omega⟩]
    rw [if_neg hshort]
    by_cases h1 : x.Reaches (byteAt x.area 0x04)
    · rw [textAt_of_reaches h1]
      by_cases h2 : x.Reaches (byteAt x.area 0x05)
      · rw [textAt_of_reaches h2]
        refine .inl ⟨⟨fun n hn => ?_, fun h => absurd h h17⟩, rfl⟩
        rw [hnumbers] at hn
        simp only [List.mem_cons, List.not_mem_nil, or_false] at hn
        obtain rfl | rfl := hn
        · exact h1
        · exact h2
      · refine .inr ⟨fun h => h2 (h.reaches _ ?_), (faulty_textAt h2).bind _⟩
        rw [hnumbers]
        simp
    · refine .inr ⟨fun h => h1 (h.reaches _ ?_), (faulty_textAt h1).bind _⟩
      rw [hnumbers]
      simp

/-- What is reported of a structure that is fine. -/
def Entry.report (x : Entry) : List Texts :=
  if x.type = 17 then [textsOf x.area x.string] else []

/-- **One structure**: it is read without a fault just if it is fine. -/
theorem outcome_cases (x : Entry) :
    (x.Fine ∧ x.outcome = .ok x.report) ∨ (¬ x.Fine ∧ Faulty x.outcome) := by
  rw [Entry.outcome, Entry.report]
  by_cases h1 : x.type = 1
  · simp only [structureTexts, h1]
    refine (boardTexts_cases (.inl h1)).imp (And.imp_right fun h => ?_)
      (And.imp_right fun h => h.bind _)
    rw [h]
    rfl
  by_cases h2 : x.type = 2
  · simp only [structureTexts, h2]
    refine (boardTexts_cases (.inr h2)).imp (And.imp_right fun h => ?_)
      (And.imp_right fun h => h.bind _)
    rw [h]
    rfl
  by_cases h17 : x.type = 17
  · simp only [structureTexts, h17]
    refine (memoryTexts_cases h17).imp (And.imp_right fun h => ?_)
      (And.imp_right fun h => h.bind _)
    rw [h]
    rfl
  · refine .inl ⟨⟨fun n hn => ?_, fun h => absurd h h17⟩, ?_⟩
    · rw [numbers, if_neg h17, if_neg (by tauto)] at hn
      simp at hn
    · simp only [structureTexts, if_neg h17]

/-! ## Tables that are read -/

variable {apple : Bool} {size : Nat} {last : Option Entry} {xs : List Entry}

theorem lastOutcome_cases (apple : Bool) (size : Nat) (x : Entry) :
    ((x.stop + 1 < 2 ^ 32 ∧ (x.Taken apple size → x.Fine)) ∧
      ∃ ts, x.lastOutcome apple size = .ok ts) ∨
    (¬ (x.stop + 1 < 2 ^ 32 ∧ (x.Taken apple size → x.Fine)) ∧
      Faulty (x.lastOutcome apple size)) := by
  rw [Entry.lastOutcome]
  by_cases hwrap : 2 ^ 32 ≤ x.stop + 1
  · rw [if_pos hwrap]
    exact .inr ⟨fun h => absurd h.1 (by omega), .inl rfl⟩
  rw [if_neg hwrap]
  by_cases htaken : x.Taken apple size
  · rw [if_pos htaken]
    obtain ⟨hfine, hout⟩ | ⟨hnot, hout⟩ := outcome_cases x
    · exact .inl ⟨⟨by omega, fun _ => hfine⟩, _, hout⟩
    · exact .inr ⟨fun h => hnot (h.2 htaken), hout⟩
  · rw [if_neg htaken]
    exact .inl ⟨⟨by omega, fun h => absurd h htaken⟩, _, rfl⟩

/-- All structures are fine, and reported in order; or there is a fault. -/
theorem tableTexts_cases (apple : Bool) (size : Nat) (last : Option Entry) (xs : List Entry) :
    (((∀ x ∈ xs, x.Fine) ∧ ∀ x ∈ last, x.stop + 1 < 2 ^ 32 ∧ (x.Taken apple size → x.Fine)) ∧
      ∃ ts, tableTexts apple size last xs = .ok (xs.flatMap Entry.report ++ ts) ∧
        (last = none → ts = [])) ∨
    (¬ ((∀ x ∈ xs, x.Fine) ∧ ∀ x ∈ last, x.stop + 1 < 2 ^ 32 ∧ (x.Taken apple size → x.Fine)) ∧
      Faulty (tableTexts apple size last xs)) := by
  induction xs with
  | nil =>
      cases last with
      | none => exact .inl ⟨by simp, [], rfl, fun _ => rfl⟩
      | some x =>
          obtain ⟨hfine, ts, hout⟩ | ⟨hnot, hout⟩ := lastOutcome_cases apple size x
          · exact .inl ⟨by simpa using hfine, ts, hout, by simp⟩
          · exact .inr ⟨fun h => hnot (h.2 x rfl), hout⟩
  | cons x xs ih =>
      rw [tableTexts]
      obtain ⟨hfine, hout⟩ | ⟨hnot, hout⟩ := outcome_cases x
      · rw [hout]
        obtain ⟨⟨hxs, hlast⟩, ts, hts, hnone⟩ | ⟨hnot, hts⟩ := ih
        · refine .inl ⟨⟨List.forall_mem_cons.mpr ⟨hfine, hxs⟩, hlast⟩, ts, ?_, hnone⟩
          rw [hts, List.flatMap_cons, List.append_assoc]
          rfl
        · exact .inr ⟨fun h => hnot ⟨(List.forall_mem_cons.mp h.1).2, h.2⟩, hts.bind _⟩
      · exact .inr ⟨fun h => hnot (List.forall_mem_cons.mp h.1).1, hout.bind _⟩

/-- The whole of `decode`. -/
theorem decode_cases (apple : Bool) {t : List UInt8} (hsize : t.length < 2 ^ 32) :
    (Readable apple t ∧ ∃ r ts, DmiReader.decode apple {} (some t) = .ok (true, r) ∧
      r.memory.map DmiMemory.texts = (structures apple t).1.flatMap Entry.report ++ ts ∧
      ((structures apple t).2 = none → ts = [])) ∨
    (¬ Readable apple t ∧ Faulty (DmiReader.decode apple {} (some t))) := by
  have hrun := decodeLoop_run apple (t.length + 1) [] t {} (by omega) hsize
  have hdecode : DmiReader.decode apple {} (some t) =
      (DmiReader.decodeLoop apple t.length (t.length + 1) 0 {} t).bind fun p => .ok (true, p.1) :=
    rfl
  rw [hdecode]
  simp only [List.nil_append, List.length_nil] at hrun
  obtain ⟨⟨hended, hlast⟩, ts, hts, hnone⟩ | ⟨hnot, hts⟩ :=
    tableTexts_cases apple t.length (structures apple t).2 (structures apple t).1
  · refine .inl ⟨⟨hended, hlast⟩, ?_⟩
    rw [structures] at hts
    rw [hts] at hrun
    obtain ⟨r, b, hrun, hr⟩ := hrun
    refine ⟨r, ts, ?_, ?_, hnone⟩
    · rw [hrun]
      rfl
    · simpa [structures] using hr
  · refine .inr ⟨fun h => hnot ⟨h.ended, h.last⟩, ?_⟩
    rw [structures] at hts
    obtain hts | hts := hts
    · rw [hts] at hrun
      have hfail : DmiReader.decodeLoop apple t.length (t.length + 1) 0 {} t = .error .outside := hrun
      rw [hfail]
      exact .inl rfl
    · rw [hts] at hrun
      have hfail : DmiReader.decodeLoop apple t.length (t.length + 1) 0 {} t = .error .null := hrun
      rw [hfail]
      exact .inr rfl

/-! ## Well-formed tables -/

theorem cut_of_ne {c : UInt8} (hc : c ≠ 0) (d : UInt8) (l : List UInt8) :
    cut (c :: d :: l) = (cut (d :: l)).map fun p => (c :: p.1, p.2) := by
  rw [cut, if_neg fun h => hc h.1]

theorem cut_text {p : List UInt8} (hp : 0 ∉ p) (l : List UInt8) :
    cut (p ++ 0 :: l) = (cut (0 :: l)).map fun q => (p ++ q.1, q.2) := by
  induction p with
  | nil => simp
  | cons c p ih =>
      obtain ⟨hc, hp⟩ : 0 ≠ c ∧ 0 ∉ p := by simpa using hp
      cases p with
      | nil =>
          rw [List.cons_append, List.nil_append, cut_of_ne (Ne.symm hc)]
          rfl
      | cons d p =>
          rw [List.cons_append, List.cons_append, cut_of_ne (Ne.symm hc), ← List.cons_append, ih hp,
            Option.map_map]
          rfl

theorem cut_strings {ts : List (List UInt8)} (h : ∀ t ∈ ts, t ≠ [] ∧ 0 ∉ t) (hne : ts ≠ [])
    (m : List UInt8) :
    cut (ts.flatMap (fun p => p ++ [0]) ++ 0 :: m) =
      some (ts.flatMap (fun p => p ++ [0]) ++ [0], m) := by
  induction ts with
  | nil => exact absurd rfl hne
  | cons t ts ih =>
      obtain ⟨⟨-, ht⟩, hts⟩ := List.forall_mem_cons.mp h
      have hsplit : (t :: ts).flatMap (fun p => p ++ [0]) ++ 0 :: m =
          t ++ 0 :: (ts.flatMap (fun p => p ++ [0]) ++ 0 :: m) := by simp
      rw [hsplit, cut_text ht]
      cases ts with
      | nil => simp [cut]
      | cons u us =>
          have hcut := ih hts (by simp)
          obtain ⟨c, u, rfl⟩ := List.exists_cons_of_ne_nil (hts u (by simp)).1
          have hc : c ≠ 0 := fun hc => (hts (c :: u) (by simp)).2 (by simp [hc])
          simp only [List.flatMap_cons, List.cons_append] at hcut ⊢
          rw [cut, if_neg fun h => hc h.2, hcut]
          simp

namespace Structure

variable (s : Structure) (m : List UInt8)

theorem cut_stringSet : cut (s.stringSet ++ m) = some (s.stringSet, m) := by
  rw [stringSet]
  split
  · simp [cut]
  · next hne =>
      rw [List.append_assoc]
      exact cut_strings s.ended hne m

theorem texts_stringSet : Terminated.texts 0 (s.stringSet ++ m) = s.strings := by
  rw [stringSet]
  split
  · next hnil => simp [hnil]
  · rw [List.append_assoc]
    exact texts_flatMap s.ended m

theorem length_area : s.area.length = s.body.length + 4 := rfl

theorem zeroPairs_encode : zeroPairs (s.encode ++ m) = s.encode ++ m := by
  have hlength : UInt8.ofNat (s.body.length + 4) ≠ 0 := by
    intro h
    have hnat := congrArg UInt8.toNat h
    rw [UInt8.toNat_ofNat', Nat.mod_eq_of_lt s.fits] at hnat
    simp at hnat
  have hcons : s.encode ++ m = s.type :: .ofNat (s.body.length + 4) ::
      (s.handle.1 :: s.handle.2 :: s.body ++ s.stringSet ++ m) := rfl
  rw [hcons, zeroPairs, if_neg fun h => hlength h.2]

end Structure

/-- A structure and its entry. -/
structure Matches (s : Structure) (x : Entry) : Prop where
  type : x.type = s.type
  area : x.area = s.area
  rest : Terminated.texts 0 x.rest = s.strings

/-- A well-formed table is cut into its structures. -/
theorem split_encode (apple : Bool) (n o : Nat) (ss : List Structure) (tail : List UInt8)
    (htail : tail = [] ∨ ∃ s ∈ ss, s.type = 127)
    (hn : (ss.flatMap Structure.encode ++ tail).length < n) :
    (split apple n o (ss.flatMap Structure.encode ++ tail)).2 = none ∧
      List.Forall₂ Matches (listed ss) (split apple n o (ss.flatMap Structure.encode ++ tail)).1 := by
  induction ss generalizing n o with
  | nil =>
      obtain rfl : tail = [] := by simpa using htail
      cases n with
      | zero => exact ⟨rfl, .nil⟩
      | succ n => exact ⟨rfl, .nil⟩
  | cons s ss ih =>
      obtain ⟨n, rfl⟩ := Nat.exists_eq_succ_of_ne_zero (Nat.ne_of_gt (Nat.zero_lt_of_lt hn))
      set m := ss.flatMap Structure.encode ++ tail with hm
      have hsplit : (s :: ss).flatMap Structure.encode ++ tail = s.area ++ (s.stringSet ++ m) := by
        simp [Structure.encode, hm]
      rw [hsplit] at hn ⊢
      have hk : (UInt8.ofNat (s.body.length + 4)).toNat = s.area.length := by
        rw [UInt8.toNat_ofNat', Nat.mod_eq_of_lt s.fits, s.length_area]
      have hlong : ¬ UInt8.ofNat (s.body.length + 4) < 4 := by
        rw [UInt8.lt_iff_toNat_lt, hk, s.length_area]
        simp
      have htake : (s.area ++ (s.stringSet ++ m)).take s.area.length = s.area := List.take_left
      have hdrop : (s.area ++ (s.stringSet ++ m)).drop s.area.length = s.stringSet ++ m :=
        List.drop_left
      have hcons : s.area ++ (s.stringSet ++ m) = s.type :: .ofNat (s.body.length + 4) ::
        s.handle.1 :: s.handle.2 :: (s.body ++ (s.stringSet ++ m)) := rfl
      by_cases h127 : s.type = 127
      · rw [hcons, split, if_pos (.inr h127), listed, List.takeWhile_cons]
        simp [h127]
      · have hstop : ¬ (UInt8.ofNat (s.body.length + 4) < 4 ∨ s.type = 127) := by tauto
        have htail' : tail = [] ∨ ∃ s ∈ ss, s.type = 127 := by
          simpa [h127] using htail
        have hzeros : (if apple then zeroPairs m else m) = m := by
          split
          · cases ss with
            | nil =>
                obtain rfl : tail = [] := by simpa using htail'
                rfl
            | cons s' ss =>
                rw [hm, List.flatMap_cons, List.append_assoc, Structure.zeroPairs_encode]
          · rfl
        have hlen : m.length < n := by
          simp only [List.length_append, s.length_area] at hn
          omega
        have hrec := fun o => ih n o htail' hlen
        rw [hcons, split, if_neg hstop]
        simp only [← hcons, hk, hdrop, htake, s.cut_stringSet, hzeros]
        refine ⟨(hrec _).1, ?_⟩
        rw [listed, List.takeWhile_cons, if_pos (by simpa using h127)]
        refine .cons ⟨rfl, ?_, s.texts_stringSet m⟩ (hrec _).2
        have hzero : s.area.length - (s.area ++ (s.stringSet ++ m)).length = 0 := by simp
        rw [hzero, List.replicate_zero, List.append_nil]

/-- What the code takes a string number for. -/
theorem Matches.string_eq {s : Structure} (h : Matches s x) (n : UInt8) :
    x.string n = (s.strings[n.toNat - 1]?).map (List.map dot) := by
  rw [Entry.string, h.rest]

/-- Only the number 0 makes a difference, when there is a string. -/
theorem Matches.string_eq_iff {s : Structure} (h : Matches s x) (hne : s.strings ≠ []) (n : UInt8) :
    x.string n = s.string n ↔ n ≠ 0 := by
  rw [h.string_eq, Structure.string]
  by_cases hn : n = 0
  · obtain ⟨p, ps, hps⟩ := List.exists_cons_of_ne_nil hne
    simp [hn, hps]
  · simp [hn]

/-- A memory device has its strings just if it does not refer to string 0. -/
theorem Matches.texts_eq_iff {s : Structure} (h : Matches s x) (hfine : x.Fine)
    (h17 : s.type = 17) :
    textsOf x.area x.string = s.texts ↔ ∀ n ∈ memoryNumbers s.area, n ≠ 0 := by
  rw [h.area, Structure.texts, textsOf, textsOf, memoryNumbers]
  by_cases hshort : s.area.length < 0x15
  · simp [hshort]
  · obtain ⟨slot, hslot, -⟩ := hfine.named (h.type.trans h17) (by rw [h.area]; omega)
    have hne : s.strings ≠ [] := by
      intro hnil
      rw [h.string_eq, hnil] at hslot
      simp at hslot
    have hiff := h.string_eq_iff hne
    rw [if_neg hshort, if_neg hshort, if_neg hshort]
    split
    · rw [Texts.mk.injEq, hiff, hiff]
      simp
    · rw [Texts.mk.injEq, hiff, hiff, hiff, hiff]
      simp

theorem Matches.report_eq {s : Structure} (h : Matches s x) :
    x.report = if s.type = 17 then [textsOf x.area x.string] else [] := by
  rw [Entry.report, h.type]

theorem reports_eq_iff {ss : List Structure} (h : List.Forall₂ Matches ss xs)
    (hfine : ∀ x ∈ xs, x.Fine) :
    xs.flatMap Entry.report = (ss.filter fun s => s.type = 17).map Structure.texts ↔
      ∀ s ∈ ss.filter fun s => s.type = 17, ∀ n ∈ memoryNumbers s.area, n ≠ 0 := by
  induction h with
  | nil => simp
  | @cons s x ss xs hmatch _ ih =>
      obtain ⟨hx, hxs⟩ := List.forall_mem_cons.mp hfine
      have hrest := ih hxs
      rw [List.flatMap_cons, hmatch.report_eq]
      by_cases h17 : s.type = 17
      · have hhead := hmatch.texts_eq_iff hx h17
        simp only [h17, if_true, List.filter_cons, decide_true, List.map_cons, List.singleton_append,
          List.cons.injEq, List.forall_mem_cons, hhead, hrest]
      · simp only [h17, if_false, List.filter_cons, decide_false, List.nil_append, hrest,
          Bool.false_eq_true]

end

/-- **Which tables are decoded.**  The loop always ends.  A table is decoded without an access
outside and without a null pointer, and right if it is well formed, just if each structure names
strings that it has, and no memory device of a well-formed table refers to string 0. -/
theorem decodes_iff (apple : Bool) (t : List UInt8) (hsize : t.length < 2 ^ 32) :
    DmiReader.decode apple {} (some t) ≠ .error .endless ∧
      (Decodes apple t ↔ Readable apple t ∧ Numbered t) := by
  obtain ⟨hreadable, r, ts, hrun, hr, hnone⟩ | ⟨hnot, hfail⟩ := decode_cases apple hsize
  · -- a well-formed table has no structure that does not end
    have hwell : ∀ ss, WellFormed t ss →
        (r.memory.map DmiMemory.texts = (devices ss).map Structure.texts ↔
          ∀ s ∈ devices ss, ∀ n ∈ memoryNumbers s.area, n ≠ 0) := by
      rintro ss ⟨tail, rfl, htail⟩
      obtain ⟨hlast, hmatches⟩ := split_encode apple _ 0 ss tail htail (Nat.lt_succ_self _)
      rw [hr, hnone hlast, List.append_nil, devices]
      exact reports_eq_iff hmatches hreadable.ended
    refine ⟨by rw [hrun]; simp, ?_⟩
    constructor
    · rintro ⟨r', hrun', hr'⟩
      rw [hrun] at hrun'
      obtain ⟨-, rfl⟩ := Prod.mk.inj (Except.ok.inj hrun')
      exact ⟨hreadable, fun ss hss => (hwell ss hss).mp (hr' ss hss)⟩
    · rintro ⟨-, hnumbered⟩
      exact ⟨r, hrun, fun ss hss => (hwell ss hss).mpr (hnumbered ss hss)⟩
  · have hno : ¬ Decodes apple t := by
      rintro ⟨r, hrun, -⟩
      obtain hfail | hfail := hfail <;> rw [hfail] at hrun <;> cases hrun
    refine ⟨?_, fun h => absurd h hno, fun h => absurd h.1 hnot⟩
    obtain hfail | hfail := hfail <;> rw [hfail] <;> simp

/-- A memory device of the shortest length, with the numbers of its slot and of its bank. -/
def memoryDevice (slot bank : UInt8) (strings : List (List UInt8))
    (ended : ∀ s ∈ strings, s ≠ [] ∧ 0 ∉ s) : Structure where
  type := 17
  handle := (0, 0)
  body := List.replicate 12 0 ++ [slot, bank, 26, 0, 0]
  strings := strings
  fits := by simp
  ended := ended

/-- A slot, and a bank that is not specified. -/
def withoutBank : Structure := memoryDevice 1 0 [bytes "A1"] (by decide +kernel)

/-- Nothing is specified. -/
def withoutSlot : Structure := memoryDevice 0 0 [] (by decide)

def withBoth : Structure := memoryDevice 1 2 [bytes "DIMM 0", bytes "CHANNEL A"] (by decide +kernel)

/-- The code takes the slot for the bank that is not specified, and a device without strings
leads to a null pointer. -/
theorem not_decodes :
    ¬ Decodes false withoutBank.encode ∧
    DmiReader.decode false {} (some withoutSlot.encode) = .error .null := by
  refine ⟨?_, rfl⟩
  rintro ⟨r, hrun, htexts⟩
  have hbank : (DmiReader.decode false {} (some withoutBank.encode)).map
      (fun p => p.2.memory.map DmiMemory.bank) = .ok [some (bytes "A1")] := rfl
  rw [hrun] at hbank
  have hmemory : r.memory.map DmiMemory.bank = [some (bytes "A1")] := Except.ok.inj hbank
  have hwell := htexts [withoutBank] ⟨[], by simp, .inl rfl⟩
  have hexpected : (devices [withoutBank]).map Structure.texts =
      [{ slot := some (bytes "A1") }] := rfl
  rw [hexpected] at hwell
  have hnone := congrArg (List.map Texts.bank) hwell
  rw [List.map_map] at hnone
  have heq : r.memory.map DmiMemory.bank = [none] := hnone
  rw [hmemory] at heq
  simp at heq

theorem decodes_withBoth :
    DmiReader.decode true {} (some withBoth.encode) ≠ .error .endless ∧
      (Decodes true withBoth.encode ↔ Readable true withBoth.encode ∧ Numbered withBoth.encode) :=
  decodes_iff true withBoth.encode (by decide +kernel)

end Dmi

end XLArig
