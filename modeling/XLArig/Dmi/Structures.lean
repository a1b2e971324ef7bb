import XLArig.Dmi.Strings

/-!
# XLArig.Dmi.Structures

What `DmiMemory` and `DmiBoard` read of a structure.

The formatted area is read where it is long enough, so only the strings can lead out of the table.
`memoryTexts` says which strings of a memory device are looked up, and in which order.
-/

namespace XLArig

namespace Dmi

open Terminated StateT

/-! ## Fields -/

/-- A field of one byte. -/
def byteAt (area : List UInt8) (offset : Nat) : UInt8 := area.getD offset 0

def wordAt (area : List UInt8) (offset : Nat) : UInt16 :=
  (byteAt area offset).toUInt16 + ((byteAt area (offset + 1)).toUInt16 <<< 8)

def dwordAt (area : List UInt8) (offset : Nat) : UInt32 :=
  (wordAt area offset).toUInt32 + ((wordAt area (offset + 2)).toUInt32 <<< 16)

/-- The size of a module; without one, the manufacturer is not looked up. -/
def moduleSize (area : List UInt8) : UInt64 :=
  if 0x20 ≤ area.length ∧ wordAt area 0x0C = 0x7FFF then
    DmiMemory.extendedSize (dwordAt area 0x1C)
  else if wordAt area 0x0C ≠ 0 then DmiMemory.shortSize (wordAt area 0x0C)
  else 0

/-- The strings of a memory device. -/
structure Texts where
  slot : CString := none
  bank : CString := none
  vendor : CString := none
  product : CString := none
  deriving DecidableEq, Repr

def DmiMemory.texts (m : DmiMemory) : Texts := ⟨m.slot, m.bank, m.vendor, m.product⟩

/-- The slot and the bank, which the patterns of `setId` are matched with. -/
def idTexts (area : List UInt8) (text : UInt8 → Except Fault CString) : Except Fault Texts := do
  let slot ← text (byteAt area 0x10)
  let bank ← text (byteAt area 0x11)
  let _ ← DmiMemory.idOf slot bank
  .ok { slot := slot, bank := bank }

/-- The strings of the memory device with this formatted area, as `text` looks them up. -/
def memoryTexts (area : List UInt8) (text : UInt8 → Except Fault CString) : Except Fault Texts :=
  if area.length < 0x15 then .ok {}
  else do
    let ids ← idTexts area text
    if moduleSize area = 0 ∨ area.length < 0x1B then .ok ids
    else do
      let vendor ← text (byteAt area 0x17)
      let product ← text (byteAt area 0x1A)
      .ok { ids with vendor := vendor, product := product }

/-- The strings of a board or a system. -/
def boardTexts (area : List UInt8) (text : UInt8 → Except Fault CString) : Except Fault Unit :=
  if area.length < 0x08 then .ok ()
  else do
    let _ ← text (byteAt area 0x04)
    let _ ← text (byteAt area 0x05)
    .ok ()

section

variable {start area l rest : List UInt8} {h : DmiHeader} {offset extended : Nat}

/-- Where the formatted area lies. -/
structure Placed (start area : List UInt8) (h : DmiHeader) : Prop where
  data : h.data = start.length
  length : h.length.toNat = area.length

theorem Placed.lt_iff (hp : Placed start area h) (n : UInt8) :
    h.length < n ↔ area.length < n.toNat := by
  rw [UInt8.lt_iff_toNat_lt, hp.length]

theorem Placed.le_iff (hp : Placed start area h) (n : UInt8) :
    n ≤ h.length ↔ n.toNat ≤ area.length := by
  rw [UInt8.le_iff_toNat_le, hp.length]

theorem dmiGet8_returns (hp : Placed start area h) (ho : offset < area.length) :
    Returns (Scanned (start ++ area) l rest) (· = byteAt area offset) (dmiGet8 h offset) := by
  rintro b ⟨m, rfl, hm⟩
  have hget : (start ++ area ++ (m ++ rest))[h.data + offset]? = some area[offset] := by
    rw [hp.data, List.append_assoc, List.getElem?_append_right (by omega), Nat.add_sub_cancel_left,
      List.getElem?_append_left ho, List.getElem?_eq_getElem ho]
  refine ⟨area[offset], _, ?_, ?_, m, rfl, hm⟩
  · simp only [dmiGet8, peek, hget]
  · rw [byteAt, List.getD_eq_getElem _ _ ho]

theorem dmiGet16_returns (hp : Placed start area h) (ho : offset + 1 < area.length) :
    Returns (Scanned (start ++ area) l rest) (· = wordAt area offset) (dmiGet16 h offset) := by
  refine (dmiGet8_returns hp (by omega)).bind fun lo hlo => ?_
  refine (dmiGet8_returns hp ho).bind fun hi hhi => returns_pure ?_
  rw [hlo, hhi, wordAt]

theorem dmiGet32_returns (hp : Placed start area h) (ho : offset + 3 < area.length) :
    Returns (Scanned (start ++ area) l rest) (· = dwordAt area offset) (dmiGet32 h offset) := by
  refine (dmiGet16_returns hp (by omega)).bind fun lo hlo => ?_
  refine (dmiGet16_returns hp (by omega)).bind fun hi hhi => returns_pure ?_
  rw [hlo, hhi, dwordAt]

theorem readSize_returns (hp : Placed start area h) (ho : 0x15 ≤ area.length) :
    Returns (Scanned (start ++ area) l rest) (· = moduleSize area) (DmiMemory.readSize h) := by
  have hlen := hp.le_iff 0x20
  simp only [UInt8.reduceToNat] at hlen
  refine (dmiGet16_returns hp (by omega)).bind fun size hsize => ?_
  subst hsize
  by_cases hext : 0x20 ≤ area.length ∧ wordAt area 0x0C = 0x7FFF
  · rw [moduleSize, if_pos hext, if_pos ⟨hlen.mpr hext.1, hext.2⟩]
    refine (dmiGet32_returns hp (by omega)).bind fun size hsize => returns_pure ?_
    rw [hsize]
  · have hcode : ¬ (0x20 ≤ h.length ∧ wordAt area 0x0C = 0x7FFF) := by rwa [hlen]
    rw [moduleSize, if_neg hext, if_neg hcode]
    split
    · exact returns_pure (by rfl)
    · exact returns_pure (by rfl)

theorem readSpeed_returns (hp : Placed start area h) (ho : offset + 1 < area.length)
    (hext : extended + 3 < 0x5C) :
    Returns (Scanned (start ++ area) l rest) (fun _ => True)
      (DmiMemory.readSpeed h offset extended) := by
  have hlen := hp.le_iff 0x5C
  simp only [UInt8.reduceToNat] at hlen
  have hcode : Returns (Scanned (start ++ area) l rest) (fun _ => True)
      (DmiMemory.readExtended h extended) := by
    rw [DmiMemory.readExtended]
    split
    · next hle =>
        rw [hlen] at hle
        exact (dmiGet32_returns hp (by omega)).mono fun _ _ => trivial
    · exact returns_pure trivial
  exact (dmiGet16_returns hp ho).bind fun code1 _ => hcode.bind fun code2 _ => returns_pure trivial

theorem readRest_returns (hp : Placed start area h) (m : DmiMemory) :
    Returns (Scanned (start ++ area) l rest) (fun m' => m'.texts = m.texts)
      (DmiMemory.readRest h m) := by
  have h1 := hp.lt_iff 0x1C
  have h2 := hp.lt_iff 0x22
  have h3 := hp.lt_iff 0x28
  simp only [UInt8.reduceToNat] at h1 h2 h3
  rw [DmiMemory.readRest]
  split
  · exact returns_pure rfl
  · next hge =>
      rw [h1] at hge
      refine (dmiGet8_returns hp (by omega)).bind fun rank _ => ?_
      by_cases hshort : area.length < 0x22
      · rw [if_pos (h2.mpr hshort)]
        exact returns_pure (by rfl)
      · rw [if_neg (h2.not.mpr hshort)]
        refine (readSpeed_returns hp (by omega) (by decide)).bind fun speed _ => ?_
        by_cases hshort' : area.length < 0x28
        · rw [if_pos (h3.mpr hshort')]
          exact returns_pure (by rfl)
        · rw [if_neg (h3.not.mpr hshort')]
          exact (dmiGet16_returns hp (by omega)).bind fun voltage _ => returns_pure (by rfl)

/-! ## Strings -/

theorem Placed.length_append (hp : Placed start area h) :
    h.data + h.length.toNat = (start ++ area).length := by
  rw [List.length_append, hp.data, hp.length]

theorem dmiString_points (hp : Placed start area h) (hclosed : Closed l rest) (h4 : 4 ≤ offset)
    (ho : offset < area.length) {m : List UInt8} (hm : Dotted l m) :
    match textAt l (byteAt area offset) with
    | .ok out => ∃ ptr m',
        dmiString h offset (start ++ area ++ (m ++ rest)) =
          .ok (ptr, start ++ area ++ (m' ++ rest)) ∧
        Dotted m m' ∧ Points (start ++ area) m' ptr out
    | .error e => dmiString h offset (start ++ area ++ (m ++ rest)) = .error e := by
  have hscanned : Scanned (start ++ area) m rest (start ++ area ++ (m ++ rest)) := ⟨m, rfl, .refl m⟩
  obtain ⟨n, b, hread, rfl, -⟩ := dmiGet8_returns hp ho _ hscanned
  have hb : b = start ++ area ++ (m ++ rest) := by
    simp only [dmiGet8, peek] at hread
    split at hread
    · exact (congrArg Prod.snd (Except.ok.inj hread)).symm
    · cases hread
  subst hb
  have hpoints := dmiStringAt_points hp.length_append (hm.closed hclosed) (byteAt area offset)
  rw [hm.textAt_eq] at hpoints
  rw [dmiString, if_neg (by omega), StateT.bind_eq, hread]
  exact hpoints

/-- A string that is copied at once. -/
theorem dmiText_tracks (hp : Placed start area h) (hclosed : Closed l rest) (h4 : 4 ≤ offset)
    (ho : offset < area.length) :
    Tracks (Scanned (start ++ area) l rest) Eq (dmiText h offset)
      (textAt l (byteAt area offset)) := by
  rintro b ⟨m, rfl, hm⟩
  have hpoints := dmiString_points hp hclosed h4 ho hm
  rw [dmiText, StateT.bind_eq]
  cases htext : textAt l (byteAt area offset) with
  | error e =>
      simp only [htext] at hpoints ⊢
      rw [hpoints]
      rfl
  | ok out =>
      simp only [htext] at hpoints ⊢
      obtain ⟨ptr, m', hrun, hdotted, hptr⟩ := hpoints
      rw [hrun]
      exact ⟨out, _, copy_points hptr, rfl, m', rfl, hm.trans hdotted⟩

theorem idTexts_eq {text : UInt8 → Except Fault CString} {slot bank : CString}
    (hslot : text (byteAt area 0x10) = .ok slot) (hbank : text (byteAt area 0x11) = .ok bank) :
    idTexts area text =
      (DmiMemory.idOf slot bank).map fun _ => { slot := slot, bank := bank } := by
  rw [idTexts, hslot, hbank]
  change (DmiMemory.idOf slot bank >>= fun _ => _) = _
  cases DmiMemory.idOf slot bank <;> rfl

/-- The patterns are matched with the strings that the pointers point at. -/
theorem setId_points {a : List UInt8} {ptr ptr' : Option Nat} {slot bank : CString}
    (hslot : Points a l ptr slot) (hbank : Points a l ptr' bank) (m : DmiMemory) :
    m.setId ptr ptr' (a ++ (l ++ rest)) = (DmiMemory.idOf slot bank).map fun id =>
      ({ m with slot := slot, bank := bank, id := id }, a ++ (l ++ rest)) := by
  rw [DmiMemory.setId, StateT.bind_eq, copy_points hslot]
  simp only [Except.bind]
  rw [StateT.bind_eq, copy_points hbank]
  simp only [Except.bind]
  rw [StateT.bind_eq]
  cases DmiMemory.idOf slot bank <;> rfl

/-- Both strings are looked up before one of them is copied. -/
theorem readId_tracks (hp : Placed start area h) (hclosed : Closed l rest)
    (ho : 0x15 ≤ area.length) (m : DmiMemory) (hm : m.texts = {}) :
    Tracks (Scanned (start ++ area) l rest) (fun m' t => m'.texts = t ∧ m'.size = m.size)
      (DmiMemory.readId h m) (idTexts area (textAt l)) := by
  rintro b ⟨k, rfl, hk⟩
  have hslot := @dmiString_points start area l rest h 0x10 hp hclosed (by omega) (by omega) _ hk
  rw [DmiMemory.readId, StateT.bind_eq]
  cases hn : textAt l (byteAt area 0x10) with
  | error e =>
      have hids : idTexts area (textAt l) = .error e := by rw [idTexts, hn]; rfl
      simp only [hn] at hslot
      rw [hids, hslot]
      rfl
  | ok slot =>
      simp only [hn] at hslot
      obtain ⟨ptr, k', hrun, hk', hptr⟩ := hslot
      have hbank := @dmiString_points start area l rest h 0x11 hp hclosed (by omega) (by omega) _
        (hk.trans hk')
      rw [hrun]
      simp only [Except.bind]
      rw [StateT.bind_eq]
      cases hn' : textAt l (byteAt area 0x11) with
      | error e =>
          have hids : idTexts area (textAt l) = .error e := by rw [idTexts, hn, hn']; rfl
          simp only [hn'] at hbank
          rw [hids, hbank]
          rfl
      | ok bank =>
          simp only [hn'] at hbank
          obtain ⟨ptr', k'', hrun', hk'', hptr'⟩ := hbank
          rw [hrun', idTexts_eq hn hn']
          simp only [Except.bind]
          rw [setId_points (hptr.dotted hk'') hptr']
          cases DmiMemory.idOf slot bank with
          | error e => rfl
          | ok id =>
              refine ⟨_, _, rfl, ⟨?_, rfl⟩, k'', rfl, (hk.trans hk').trans hk''⟩
              obtain ⟨-, -, hvendor, hproduct⟩ := Texts.mk.inj hm
              simp [DmiMemory.texts, hvendor, hproduct]

/-- **The strings of a memory device.** -/
theorem decode_tracks (hp : Placed start area h) (hclosed : Closed l rest) :
    Tracks (Scanned (start ++ area) l rest) (fun m t => m.texts = t)
      (DmiMemory.decode h) (memoryTexts area (textAt l)) := by
  have h1 := hp.lt_iff 0x15
  have h2 := hp.lt_iff 0x17
  have h3 := hp.lt_iff 0x1B
  simp only [UInt8.reduceToNat] at h1 h2 h3
  rw [DmiMemory.decode, memoryTexts]
  by_cases hshort : area.length < 0x15
  · rw [if_pos (h1.mpr hshort), if_pos hshort]
    exact tracks_pure rfl
  rw [if_neg (h1.not.mpr hshort), if_neg hshort]
  refine (dmiGet16_returns hp (by omega)).after fun totalWidth _ => ?_
  refine (dmiGet16_returns hp (by omega)).after fun width _ => ?_
  refine (readSize_returns hp (by omega)).after fun size hsize => ?_
  refine (readId_tracks hp hclosed (by omega) _ rfl).bind fun m ids ⟨hids, hm⟩ => ?_
  refine (dmiGet8_returns hp (by omega)).after fun formFactor _ => ?_
  refine (dmiGet8_returns hp (by omega)).after fun type _ => ?_
  rw [hsize] at hm
  simp only [hm]
  by_cases hempty : moduleSize area = 0 ∨ area.length < 0x17
  · rw [if_pos (by rwa [h2]), if_pos (hempty.imp id fun hlt => by omega)]
    exact tracks_pure hids
  · rw [if_neg (by rwa [h2])]
    refine (readSpeed_returns hp (by omega) (by decide)).after fun speed _ => ?_
    by_cases hshort' : area.length < 0x1B
    · rw [if_pos (h3.mpr hshort'), if_pos (.inr hshort')]
      exact tracks_pure hids
    · rw [if_neg (h3.not.mpr hshort'), if_neg (by tauto)]
      refine (dmiText_tracks hp hclosed (by omega) (by omega)).bind fun vendor _ hvendor => ?_
      refine (dmiText_tracks hp hclosed (by omega) (by omega)).bind fun product _ hproduct => ?_
      subst hvendor hproduct hids
      exact (readRest_returns hp _).tracks

theorem boardDecode_tracks (hp : Placed start area h) (hclosed : Closed l rest) (board : DmiBoard) :
    Tracks (Scanned (start ++ area) l rest) (fun _ _ => True)
      (board.decode h) (boardTexts area (textAt l)) := by
  have h1 := hp.lt_iff 0x08
  simp only [UInt8.reduceToNat] at h1
  rw [DmiBoard.decode, boardTexts]
  by_cases hshort : area.length < 0x08
  · rw [if_pos (h1.mpr hshort), if_pos hshort]
    exact tracks_pure trivial
  · rw [if_neg (h1.not.mpr hshort), if_neg hshort]
    refine (dmiText_tracks hp hclosed (by omega) (by omega)).bind fun vendor _ _ => ?_
    exact (dmiText_tracks hp hclosed (by omega) (by omega)).bind fun product _ _ =>
      tracks_pure trivial

end

end Dmi

end XLArig
