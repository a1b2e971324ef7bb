import XLArig.Dmi.Structures

/-!
# XLArig.Dmi.Table

The structures of a table, and what `DmiReader::decode` makes of them.

`split` cuts a table as its structures say: the length of the formatted area, and two zero bytes
behind the strings.  A structure whose strings do not end is the last one.
-/

namespace XLArig

namespace Dmi

open Terminated StateT

/-! ## The structures of a table -/

/-- The bytes up to two zero bytes, and what follows. -/
def cut : List UInt8 → Option (List UInt8 × List UInt8)
  | c :: d :: l =>
      if c = 0 ∧ d = 0 then some ([c, d], l)
      else (cut (d :: l)).map fun p => (c :: p.1, p.2)
  | _ => none

/-- What is left without the pairs of zeros in front. -/
def zeroPairs : List UInt8 → List UInt8
  | c :: d :: l => if c = 0 ∧ d = 0 then zeroPairs l else c :: d :: l
  | l => l

/-- A structure in a table. -/
structure Entry where
  type : UInt8
  /-- The formatted area, with zeros for what is outside of the table. -/
  area : List UInt8
  /-- What follows the formatted area. -/
  rest : List UInt8
  /-- Where the formatted area ends. -/
  stop : Nat

/-- The structures that end, and the last one if it does not. -/
def split (apple : Bool) : Nat → Nat → List UInt8 → List Entry × Option Entry
  | n + 1, o, type :: length :: lo :: hi :: t =>
      if length < 4 ∨ type = 127 then ([], none)
      else
        let table := type :: length :: lo :: hi :: t
        let k := length.toNat
        let x : Entry :=
          { type := type
            area := table.take k ++ List.replicate (k - table.length) 0
            rest := table.drop k
            stop := o + k }
        match cut x.rest with
        | none => ([], some x)
        | some (_, m) =>
            let t := if apple then zeroPairs m else m
            let p := split apple n (o + (table.length - t.length)) t
            (x :: p.1, p.2)
  | _, _, _ => ([], none)

/-- The strings that `decode` reports of a structure, if it is a memory device. -/
def structureTexts (type : UInt8) (area : List UInt8) (text : UInt8 → Except Fault CString) :
    Except Fault (List Texts) :=
  match type with
  | 1 => boardTexts area text >>= fun _ => .ok []
  | 2 => boardTexts area text >>= fun _ => .ok []
  | 17 => memoryTexts area text >>= fun t => .ok [t]
  | _ => .ok []

def Entry.outcome (x : Entry) : Except Fault (List Texts) :=
  structureTexts x.type x.area (textAt x.rest)

/-- Whether `decode` takes a last structure that does not end for one that does. -/
def Entry.Taken (apple : Bool) (size : Nat) (x : Entry) : Prop :=
  if apple then x.stop ≤ size else max x.stop (size - 1) + 2 = 2 ^ 32

instance (apple : Bool) (size : Nat) (x : Entry) : Decidable (x.Taken apple size) := by
  unfold Entry.Taken
  infer_instance

/-- What becomes of a last structure that does not end. -/
def Entry.lastOutcome (apple : Bool) (size : Nat) (x : Entry) : Except Fault (List Texts) :=
  if 2 ^ 32 ≤ x.stop + 1 then .error .outside
  else if x.Taken apple size then x.outcome
  else .ok []

/-- What becomes of a table. -/
def tableTexts (apple : Bool) (size : Nat) (last : Option Entry) :
    List Entry → Except Fault (List Texts)
  | [] =>
      match last with
      | none => .ok []
      | some x => x.lastOutcome apple size
  | x :: xs => do
      let t ← x.outcome
      let ts ← tableTexts apple size last xs
      .ok (t ++ ts)

section

variable {apple : Bool} {size next : Nat} {a l m s : List UInt8}

/-! ## The end of a structure -/

theorem cut_some (h : cut l = some (s, m)) : ∃ k, s = k ++ [0, 0] ∧ l = s ++ m := by
  induction l using cut.induct generalizing s with
  | case1 c d l hzero =>
      obtain ⟨rfl, rfl⟩ := hzero
      simp only [cut, and_self, if_true, Option.some.injEq, Prod.mk.injEq] at h
      obtain ⟨rfl, rfl⟩ := h
      exact ⟨[], rfl, rfl⟩
  | case2 c d l hzero ih =>
      simp only [cut, if_neg hzero, Option.map_eq_some_iff] at h
      obtain ⟨⟨s', m'⟩, hcut, hs⟩ := h
      obtain ⟨rfl, rfl⟩ := Prod.mk.inj hs
      obtain ⟨k, rfl, hl⟩ := ih hcut
      exact ⟨c :: k, rfl, by rw [hl]; rfl⟩
  | case3 l hl => simp [cut] at h

theorem uint32_of_lt {n : Nat} (h : n < 2 ^ 32) : DmiReader.uint32 n = n := Nat.mod_eq_of_lt h

theorem findZeros_cut (h : cut l = some (s ++ [0, 0], m)) (hsize : next + l.length = size)
    (hlt : size < 2 ^ 32) : DmiReader.findZeros size next l = .ok (next + s.length) := by
  induction l using cut.induct generalizing s next with
  | case1 c d l hzero =>
      obtain ⟨rfl, rfl⟩ := hzero
      have hs : s = [] := by
        have hlen := congrArg List.length (Prod.mk.inj (Option.some.inj h)).1
        simpa using hlen
      simp only [List.length_cons] at hsize
      have hin : DmiReader.uint32 (next + 1) < size := by
        rw [uint32_of_lt (by omega)]
        omega
      simp [DmiReader.findZeros, hin, hs]
  | case2 c d l hzero ih =>
      simp only [cut, if_neg hzero, Option.map_eq_some_iff] at h
      obtain ⟨⟨s', m'⟩, hcut, hs⟩ := h
      have hfst : c :: s' = s ++ [0, 0] := congrArg Prod.fst hs
      have hsnd : m' = m := congrArg Prod.snd hs
      subst hsnd
      obtain ⟨k, rfl, -⟩ := cut_some hcut
      obtain rfl : c :: k = s := List.append_cancel_right hfst
      simp only [List.length_cons] at hsize
      have hrest : next + 1 + (d :: l).length = size := by simp only [List.length_cons]; omega
      have hnext := ih hcut hrest
      have hin : DmiReader.uint32 (next + 1) < size := by
        rw [uint32_of_lt (by omega)]
        omega
      rw [DmiReader.findZeros, if_pos hin, hnext]
      have hlen : next + 1 + k.length = next + (c :: k).length := by simp; omega
      rw [hlen]
      by_cases hc : c = 0
      · have hd : d ≠ 0 := fun hd => hzero ⟨hc, hd⟩
        simp [hc, hd]
      · simp [hc]
  | case3 l hl => simp [cut] at h

/-- Without two zeros, the search stops at the last byte. -/
theorem findZeros_none (h : cut l = none) (hne : l ≠ []) (hsize : next + l.length = size)
    (hlt : size < 2 ^ 32) : DmiReader.findZeros size next l = .ok (size - 1) := by
  induction l using cut.induct generalizing next with
  | case1 c d l hzero => simp [cut, hzero] at h
  | case2 c d l hzero ih =>
      simp only [cut, if_neg hzero, Option.map_eq_none_iff] at h
      simp only [List.length_cons] at hsize
      have hrest : next + 1 + (d :: l).length = size := by simp only [List.length_cons]; omega
      have hnext := ih h (by simp) hrest
      have hin : DmiReader.uint32 (next + 1) < size := by
        rw [uint32_of_lt (by omega)]
        omega
      rw [DmiReader.findZeros, if_pos hin, hnext]
      by_cases hc : c = 0
      · have hd : d ≠ 0 := fun hd => hzero ⟨hc, hd⟩
        simp [hc, hd]
      · simp [hc]
  | case3 l hl =>
      match l, hl with
      | [], _ => exact absurd rfl hne
      | [c], _ =>
          simp only [List.length_cons, List.length_nil] at hsize
          have hout : ¬ DmiReader.uint32 (next + 1) < size := by
            rw [uint32_of_lt (by omega)]
            omega
          rw [DmiReader.findZeros, if_neg hout]
          congr 1
          omega
      | c :: d :: l, hl => exact absurd rfl (hl c d l)

theorem zeroPairs_append (l : List UInt8) : ∃ k, l = k ++ zeroPairs l := by
  induction l using zeroPairs.induct with
  | case1 c d l hzero ih =>
      obtain ⟨k, hk⟩ := ih
      rw [zeroPairs, if_pos hzero]
      exact ⟨c :: d :: k, by rw [List.cons_append, List.cons_append, ← hk]⟩
  | case2 c d l hzero =>
      rw [zeroPairs, if_neg hzero]
      exact ⟨[], rfl⟩
  | case3 l hl =>
      refine ⟨[], ?_⟩
      rw [zeroPairs]
      · rfl
      · exact hl

theorem skipZeros_run (hsize : next + l.length = size) :
    DmiReader.skipZeros size next l = .ok (next + (l.length - (zeroPairs l).length)) := by
  induction l using zeroPairs.induct generalizing next with
  | case1 c d l hzero ih =>
      obtain ⟨k, hk⟩ := zeroPairs_append l
      have hlen := congrArg List.length hk
      simp only [List.length_cons, List.length_append] at hsize hlen
      have hnext := @ih (next + 2) (by omega)
      rw [DmiReader.skipZeros, if_pos ⟨by omega, hzero⟩, hnext, zeroPairs, if_pos hzero]
      congr 1
      simp only [List.length_cons]
      omega
  | case2 c d l hzero =>
      rw [DmiReader.skipZeros, if_neg fun h => hzero h.2, zeroPairs, if_neg hzero]
      simp
  | case3 l hl =>
      match l, hl with
      | [], _ => simp [DmiReader.skipZeros, zeroPairs, ← hsize]
      | [c], _ => simp [DmiReader.skipZeros, zeroPairs, ← hsize]
      | c :: d :: l, hl => exact absurd rfl (hl c d l)

theorem skipZeros_end (h : size ≤ next + 1) : DmiReader.skipZeros size next l = .ok next := by
  match l with
  | [] => simp [DmiReader.skipZeros, h]
  | [c] => simp [DmiReader.skipZeros, h]
  | c :: d :: l =>
      rw [DmiReader.skipZeros, if_neg]
      omega

/-- Where the structure behind one that ends begins. -/
theorem findNext_cut (h : cut l = some (s, m)) (hnext : next = a.length)
    (hsize : size = (a ++ l).length) (hlt : size < 2 ^ 32) :
    DmiReader.findNext apple size next (a ++ l) =
      .ok (next + (l.length - (if apple then zeroPairs m else m).length), a ++ l) := by
  obtain ⟨k, rfl, rfl⟩ := cut_some h
  have hlen : next + (k ++ [0, 0] ++ m).length = size := by
    rw [hsize, hnext, @List.length_append _ a]
  have hfind := findZeros_cut h hlen hlt
  rw [DmiReader.findNext, hnext, List.drop_left, ← hnext, hfind]
  cases apple with
  | false =>
      have hend : next + k.length + 2 = next + ((k ++ [0, 0] ++ m).length - m.length) := by
        simp only [List.length_append, List.length_cons, List.length_nil]
        omega
      rw [if_neg Bool.false_ne_true, ← hend]
      rfl
  | true =>
      have hdrop : (a ++ (k ++ [0, 0] ++ m)).drop (next + k.length) = 0 :: 0 :: m := by
        have hstate : a ++ (k ++ [0, 0] ++ m) = (a ++ k) ++ 0 :: 0 :: m := by simp
        have hlength : next + k.length = (a ++ k).length := by simp [hnext]
        rw [hstate, hlength, List.drop_left]
      have hskip := @skipZeros_run size (next + k.length) (0 :: 0 :: m) (by
        simp only [List.length_append, List.length_cons, List.length_nil] at hlen ⊢
        omega)
      have hpairs : zeroPairs (0 :: 0 :: m) = zeroPairs m := by simp [zeroPairs]
      obtain ⟨z, hz⟩ := zeroPairs_append m
      have hzlen := congrArg List.length hz
      have hend : next + k.length + ((0 :: 0 :: m).length - (zeroPairs m).length) =
          next + ((k ++ [0, 0] ++ m).length - (zeroPairs m).length) := by
        simp only [List.length_append, List.length_cons, List.length_nil] at hzlen ⊢
        omega
      rw [hpairs, hend] at hskip
      simp only [if_pos, Except.bind, bind, hdrop, hskip]
      rfl

/-- Where the search for the end of a last structure stops, if it stays inside the table. -/
theorem findNext_none {b : List UInt8} (h : cut (b.drop next) = none) (hsize : size = b.length)
    (hlt : size < 2 ^ 32) (hpos : 0 < size) (hle : next ≤ size + 251) :
    DmiReader.findNext apple size next b =
      if 2 ^ 32 ≤ next + 1 then .error .outside
      else .ok (max next (size - 1) + (if apple then 0 else 2), b) := by
  by_cases hin : next < size
  · have hne : b.drop next ≠ [] := by
      rw [Ne, List.drop_eq_nil_iff]
      omega
    have hlen : next + (b.drop next).length = size := by
      rw [List.length_drop]
      omega
    have hfind := findZeros_none h hne hlen hlt
    have hmax : max next (size - 1) = size - 1 := by omega
    rw [DmiReader.findNext, hfind, if_neg (by omega), hmax]
    cases apple with
    | false => rfl
    | true =>
        simp only [if_pos, Except.bind, bind]
        rw [skipZeros_end (by omega)]
        rfl
  · have hdrop : b.drop next = [] := List.drop_eq_nil_iff.mpr (by omega)
    rw [DmiReader.findNext, hdrop, DmiReader.findZeros]
    by_cases hwrap : 2 ^ 32 ≤ next + 1
    · have hin : DmiReader.uint32 (next + 1) < size := by
        rw [DmiReader.uint32]
        omega
      rw [if_pos hin, if_pos hwrap]
      rfl
    · have hout : ¬ DmiReader.uint32 (next + 1) < size := by
        rw [uint32_of_lt (by omega)]
        omega
      have hmax : max next (size - 1) = next := by omega
      rw [if_neg hout, if_neg hwrap, hmax]
      cases apple with
      | false => rfl
      | true =>
          simp only [if_pos, Except.bind, bind]
          rw [skipZeros_end (by omega)]
          rfl

/-! ## One structure -/

theorem pieces_zeros (k : List UInt8) : [] ∈ pieces 0 (k ++ [0, 0]) := by
  rw [pieces_append_cons]
  exact List.mem_append_right _ (by simp)

/-- Behind two zeros there are no strings. -/
theorem textAt_cut (h : cut l = some (s, m)) (n : UInt8) : textAt l n = textAt s n := by
  obtain ⟨k, rfl, rfl⟩ := cut_some h
  have hsplit : ∀ m : List UInt8, k ++ [0, 0] ++ m = (k ++ [0]) ++ 0 :: m := by simp
  have hmem : [] ∈ pieces 0 (k ++ [0, 0]) := pieces_zeros k
  have hend : k ++ [0, 0] = (k ++ [0]) ++ [0] := by simp
  rw [hend] at hmem
  have hmem' : [] ∈ pieces 0 ((k ++ [0]) ++ 0 :: m) := by
    rw [pieces_append_cons]
    exact List.mem_append_left _ hmem
  rw [textAt, textAt, hsplit, hend, texts_append_cons hmem, if_pos hmem, if_pos hmem']

theorem closed_cut (h : cut l = some (s, m)) : Closed s m := by
  obtain ⟨k, rfl, -⟩ := cut_some h
  exact .inr (pieces_zeros k)

variable {start area rest b : List UInt8} {h : DmiHeader}

theorem decodeStructure_tracks (hp : Placed start area h) (hclosed : Closed l rest)
    (r : DmiReader) :
    Tracks (Scanned (start ++ area) l rest)
      (fun r' ts => r'.memory.map DmiMemory.texts = r.memory.map DmiMemory.texts ++ ts)
      (r.decodeStructure h) (structureTexts h.type area (textAt l)) := by
  by_cases h1 : h.type = 1
  · simp only [DmiReader.decodeStructure, structureTexts, h1]
    exact (boardDecode_tracks hp hclosed _).bind fun _ _ _ => tracks_pure (by simp)
  by_cases h2 : h.type = 2
  · simp only [DmiReader.decodeStructure, structureTexts, h2]
    exact (boardDecode_tracks hp hclosed _).bind fun _ _ _ => tracks_pure (by simp)
  by_cases h17 : h.type = 17
  · simp only [DmiReader.decodeStructure, structureTexts, h17]
    exact (decode_tracks hp hclosed).bind fun m t hm => tracks_pure (by simp [hm])
  · simp only [DmiReader.decodeStructure, structureTexts]
    exact tracks_pure (by simp)

/-! A structure that goes beyond the table -/

/-- A read in the table, or one outside. -/
def Leaves {α : Type} (x : Run α) (b : List UInt8) : Prop :=
  (∃ v, x b = .ok (v, b)) ∨ x b = .error .outside

theorem Leaves.bind {α β : Type} {x : Run α} {f : α → Run β} (hx : Leaves x b)
    (hf : ∀ v, Leaves (f v) b) : Leaves (x >>= f) b := by
  rw [Leaves, StateT.bind_eq]
  rcases hx with ⟨v, hv⟩ | hx
  · rw [hv]
    exact hf v
  · rw [hx]
    exact .inr rfl

theorem Leaves.stops {α β : Type} {x : Run α} {f : α → Run β} (hx : Leaves x b)
    (hf : ∀ v, f v b = .error .outside) : (x >>= f) b = .error .outside := by
  rw [StateT.bind_eq]
  rcases hx with ⟨v, hv⟩ | hx
  · rw [hv]
    exact hf v
  · rw [hx]
    rfl

theorem leaves_pure {α : Type} (v : α) : Leaves (pure v : Run α) b := .inl ⟨v, rfl⟩

theorem peek_leaves (i : Nat) : Leaves (peek i) b := by
  unfold Leaves peek
  cases b[i]? with
  | none => exact .inr rfl
  | some c => exact .inl ⟨c, rfl⟩

theorem dmiGet16_leaves (offset : Nat) : Leaves (dmiGet16 h offset) b :=
  (peek_leaves _).bind fun _ => (peek_leaves _).bind fun _ => leaves_pure _

theorem dmiGet32_leaves (offset : Nat) : Leaves (dmiGet32 h offset) b :=
  (dmiGet16_leaves _).bind fun _ => (dmiGet16_leaves _).bind fun _ => leaves_pure _

theorem readSize_leaves : Leaves (DmiMemory.readSize h) b := by
  refine (dmiGet16_leaves _).bind fun size => ?_
  split
  · exact (dmiGet32_leaves _).bind fun _ => leaves_pure _
  · split
    · exact leaves_pure _
    · exact leaves_pure _

/-- There is no first byte of a string. -/
theorem dmiString_beyond (hb : b.length ≤ h.data + h.length.toNat) {offset : Nat}
    (h4 : 4 ≤ offset) : dmiString h offset b = .error .outside := by
  rw [dmiString, if_neg (by omega)]
  refine (peek_leaves _).stops fun s => ?_
  have hend : peek (h.data + h.length.toNat) b = .error .outside := peek_end hb
  have hfinish : finishString (h.data + h.length.toNat) b = .error .outside := by
    rw [finishString, StateT.bind_eq, hend]
    rfl
  rw [dmiStringAt_eq, StateT.bind_eq]
  cases s.toNat with
  | zero => exact hfinish
  | succ n =>
      cases n with
      | zero => exact hfinish
      | succ n =>
          rw [skipStrings, StateT.bind_eq, hend]
          rfl

theorem dmiText_beyond (hb : b.length ≤ h.data + h.length.toNat) {offset : Nat}
    (h4 : 4 ≤ offset) : dmiText h offset b = .error .outside := by
  rw [dmiText, StateT.bind_eq, dmiString_beyond hb h4]
  rfl

theorem decode_beyond (hb : b.length ≤ h.data + h.length.toNat) (hlen : ¬ h.length < 0x15) :
    DmiMemory.decode h b = .error .outside := by
  rw [DmiMemory.decode, if_neg hlen]
  refine (dmiGet16_leaves _).stops fun totalWidth => ?_
  refine (dmiGet16_leaves _).stops fun width => ?_
  refine readSize_leaves.stops fun size => ?_
  rw [StateT.bind_eq, DmiMemory.readId, StateT.bind_eq, dmiString_beyond hb (by decide)]
  rfl

theorem boardDecode_beyond (hb : b.length ≤ h.data + h.length.toNat) (hlen : ¬ h.length < 0x08)
    (board : DmiBoard) : board.decode h b = .error .outside := by
  rw [DmiBoard.decode, if_neg hlen, StateT.bind_eq, dmiText_beyond hb (by decide)]
  rfl

theorem textAt_nil (n : UInt8) : textAt [] n = .error .outside := by
  simp [textAt, texts, pieces]

/-- Without bytes behind the formatted area, a structure is read if no string is. -/
theorem decodeStructure_beyond (hb : b.length ≤ h.data + h.length.toNat)
    (harea : h.length.toNat = area.length) (r : DmiReader) :
    match structureTexts h.type area (textAt []) with
    | .ok ts => ∃ r', r.decodeStructure h b = .ok (r', b) ∧
        r'.memory.map DmiMemory.texts = r.memory.map DmiMemory.texts ++ ts
    | .error e => r.decodeStructure h b = .error e := by
  have hboard : ∀ board : DmiBoard,
      (boardTexts area (textAt []) = .ok () ∧ board.decode h b = .ok (board, b)) ∨
      (boardTexts area (textAt []) = .error .outside ∧ board.decode h b = .error .outside) := by
    intro board
    have hlt : h.length < 0x08 ↔ area.length < 0x08 := by
      rw [UInt8.lt_iff_toNat_lt, harea]
      rfl
    by_cases hshort : area.length < 0x08
    · refine .inl ⟨if_pos hshort, ?_⟩
      rw [DmiBoard.decode, if_pos (hlt.mpr hshort)]
      rfl
    · refine .inr ⟨?_, boardDecode_beyond hb (hlt.not.mpr hshort) board⟩
      rw [boardTexts, if_neg hshort, textAt_nil]
      rfl
  by_cases h1 : h.type = 1
  · simp only [DmiReader.decodeStructure, structureTexts, h1]
    obtain ⟨ht, hd⟩ | ⟨ht, hd⟩ := hboard r.system
    · rw [ht, StateT.bind_eq, hd]
      exact ⟨_, rfl, by simp⟩
    · rw [ht, StateT.bind_eq, hd]
      rfl
  by_cases h2 : h.type = 2
  · simp only [DmiReader.decodeStructure, structureTexts, h2]
    obtain ⟨ht, hd⟩ | ⟨ht, hd⟩ := hboard r.board
    · rw [ht, StateT.bind_eq, hd]
      exact ⟨_, rfl, by simp⟩
    · rw [ht, StateT.bind_eq, hd]
      rfl
  by_cases h17 : h.type = 17
  · simp only [DmiReader.decodeStructure, structureTexts, h17]
    have hlt : h.length < 0x15 ↔ area.length < 0x15 := by
      rw [UInt8.lt_iff_toNat_lt, harea]
      rfl
    by_cases hshort : area.length < 0x15
    · have ht : memoryTexts area (textAt []) = .ok {} := if_pos hshort
      have hd : DmiMemory.decode h b = .ok ({}, b) := by
        rw [DmiMemory.decode, if_pos (hlt.mpr hshort)]
        rfl
      rw [ht, StateT.bind_eq, hd]
      exact ⟨_, rfl, by simp [DmiMemory.texts]⟩
    · have ht : memoryTexts area (textAt []) = .error .outside := by
        rw [memoryTexts, if_neg hshort, idTexts, textAt_nil]
        rfl
      rw [ht, StateT.bind_eq, decode_beyond hb (hlt.not.mpr hshort)]
      rfl
  · simp only [DmiReader.decodeStructure, structureTexts]
    exact ⟨r, rfl, by simp⟩

end

end Dmi

end XLArig
