import XLArig.Dmi.Table

/-!
# XLArig.Dmi.Decode

`DmiReader::decode`, against the structures of the table.

The loop goes along `split` (`decodeLoop_run`), so a table is decoded without a fault just if each
of its structures is (`Readable`).
-/

namespace XLArig

namespace Dmi

open Terminated StateT

section

variable {apple : Bool} {size n : Nat} {a t b : List UInt8} {r : DmiReader} {h : DmiHeader}

/-! ## The loop -/

theorem dmiGetHeader_run (a : List UInt8) (type length lo hi : UInt8) (t : List UInt8) :
    ∃ handle, DmiReader.dmiGetHeader a.length (a ++ type :: length :: lo :: hi :: t) =
      .ok (⟨type, length, handle, a.length⟩, a ++ type :: length :: lo :: hi :: t) := by
  have hget : ∀ k c, (type :: length :: lo :: hi :: t)[k]? = some c →
      peek (a.length + k) (a ++ type :: length :: lo :: hi :: t) =
        .ok (c, a ++ type :: length :: lo :: hi :: t) := by
    intro k c hk
    rw [peek, List.getElem?_append_right (by omega), Nat.add_sub_cancel_left, hk]
  refine ⟨lo.toUInt16 + (hi.toUInt16 <<< 8), ?_⟩
  rw [DmiReader.dmiGetHeader, StateT.bind_eq, ← Nat.add_zero a.length, hget 0 type rfl]
  simp only [Except.bind, Nat.add_zero]
  rw [StateT.bind_eq, hget 1 length rfl]
  simp only [Except.bind]
  rw [StateT.bind_eq, dmiGet16, StateT.bind_eq, dmiGet8, hget 2 lo rfl]
  simp only [Except.bind]
  rw [StateT.bind_eq, dmiGet8, hget 3 hi rfl]
  rfl

/-- What the loop does behind the header of a structure. -/
def decodeBody (apple : Bool) (size n : Nat) (r : DmiReader) (h : DmiHeader) : Run DmiReader := do
  let next ← DmiReader.findNext apple size (h.data + h.length.toNat)
  if size < DmiReader.uint32 next then pure r
  else do
    let r ← r.decodeStructure h
    DmiReader.decodeLoop apple size n next r

/-- There is no room for a header. -/
theorem decodeLoop_end (hdata : size < n + 4) (k : Nat) (r : DmiReader) (b : List UInt8) :
    DmiReader.decodeLoop apple size (k + 1) n r b = .ok (r, b) := by
  rw [DmiReader.decodeLoop, if_neg (by omega)]
  rfl

theorem decodeLoop_body {type length lo hi : UInt8}
    (hsize : size = (a ++ type :: length :: lo :: hi :: t).length) :
    ∃ handle, DmiReader.decodeLoop apple size (n + 1) a.length r
        (a ++ type :: length :: lo :: hi :: t) =
      (if length < 4 ∨ type = 127 then pure r
        else decodeBody apple size n r ⟨type, length, handle, a.length⟩ : Run DmiReader)
        (a ++ type :: length :: lo :: hi :: t) := by
  obtain ⟨handle, hrun⟩ := dmiGetHeader_run a type length lo hi t
  refine ⟨handle, ?_⟩
  simp only [List.length_append, List.length_cons] at hsize
  rw [DmiReader.decodeLoop, if_pos (by omega), StateT.bind_eq, hrun]
  rfl

/-- `x` fails as `y` does, or adds memory devices with these strings. -/
def Reports (x : Run DmiReader) (b : List UInt8) (r : DmiReader) :
    Except Fault (List Texts) → Prop
  | .ok ts => ∃ r' b', x b = .ok (r', b') ∧
      r'.memory.map DmiMemory.texts = r.memory.map DmiMemory.texts ++ ts
  | .error e => x b = .error e

theorem reports_pure (r : DmiReader) (b : List UInt8) : Reports (pure r) b r (.ok []) :=
  ⟨r, b, rfl, by simp⟩

theorem Reports.of_eq {x y : Run DmiReader} {o : Except Fault (List Texts)} (h : x b = y b)
    (hy : Reports y b r o) : Reports x b r o := by
  cases o with
  | ok ts =>
      obtain ⟨r', b', hrun, hr⟩ := hy
      exact ⟨r', b', h.trans hrun, hr⟩
  | error e => exact h.trans hy

/-- The rest of the loop, behind a structure. -/
theorem Reports.bind {x : Run DmiReader} {f : DmiReader → Run DmiReader}
    {y z : Except Fault (List Texts)}
    (hx : match y with
      | .ok ts => ∃ r' b', x b = .ok (r', b') ∧
          r'.memory.map DmiMemory.texts = r.memory.map DmiMemory.texts ++ ts ∧
          Reports (f r') b' r' z
      | .error e => x b = .error e) :
    Reports (x >>= f) b r (do
      let t ← y
      let ts ← z
      .ok (t ++ ts)) := by
  cases y with
  | error e =>
      change x b = .error e at hx
      have hrun : (x >>= f) b = .error e := by
        rw [StateT.bind_eq, hx]
        rfl
      exact hrun
  | ok t =>
      obtain ⟨r', b', hrun, hr, hrest⟩ := hx
      have hbind : (x >>= f) b = f r' b' := by
        rw [StateT.bind_eq, hrun]
        rfl
      cases z with
      | error e => exact hbind.trans hrest
      | ok ts =>
          obtain ⟨r'', b'', hrun', hr'⟩ := hrest
          refine ⟨r'', b'', hbind.trans hrun', ?_⟩
          rw [hr', hr, List.append_assoc]

/-- A structure whose formatted area is in the table, with the strings in `l`. -/
theorem decodeStructure_run {area l rest : List UInt8} (hp : Placed a area h)
    (hclosed : Closed l rest) (r : DmiReader) :
    match structureTexts h.type area (textAt l) with
    | .ok ts => ∃ r' l', r.decodeStructure h (a ++ area ++ (l ++ rest)) =
          .ok (r', a ++ area ++ (l' ++ rest)) ∧ l'.length = l.length ∧
        r'.memory.map DmiMemory.texts = r.memory.map DmiMemory.texts ++ ts
    | .error e => r.decodeStructure h (a ++ area ++ (l ++ rest)) = .error e := by
  have htracks := decodeStructure_tracks hp hclosed r _ ⟨l, rfl, .refl l⟩
  cases htexts : structureTexts h.type area (textAt l) with
  | error e => simpa only [htexts] using htracks
  | ok ts =>
      simp only [htexts] at htracks ⊢
      obtain ⟨r', b', hrun, hr, l', rfl, hl⟩ := htracks
      exact ⟨r', l', hrun, (List.Forall₂.length_eq hl).symm, hr⟩

/-- The entry of a structure. -/
structure Entry.At (x : Entry) (a t : List UInt8) (h : DmiHeader) : Prop where
  data : h.data = a.length
  type : x.type = h.type
  area : x.area = t.take h.length.toNat ++ List.replicate (h.length.toNat - t.length) 0
  rest : x.rest = t.drop h.length.toNat
  stop : x.stop = a.length + h.length.toNat

namespace Entry.At

variable {x : Entry}

theorem length_area (hx : x.At a t h) : h.length.toNat = x.area.length := by
  rw [hx.area, List.length_append, List.length_take, List.length_replicate]
  omega

theorem placed (hx : x.At a t h) : Placed a x.area h := ⟨hx.data, hx.length_area⟩

/-- The formatted area is in the table. -/
theorem split_eq (hx : x.At a t h) (hin : h.length.toNat ≤ t.length) : t = x.area ++ x.rest := by
  have hzero : h.length.toNat - t.length = 0 := by omega
  rw [hx.area, hx.rest, hzero, List.replicate_zero, List.append_nil, List.take_append_drop]

end Entry.At

/-- A last structure that is taken for one that ends. -/
theorem decodeTaken_run {x : Entry} (hx : x.At a t h) (r : DmiReader) :
    match x.outcome with
    | .ok ts => ∃ r' b', r.decodeStructure h (a ++ t) = .ok (r', b') ∧
        r'.memory.map DmiMemory.texts = r.memory.map DmiMemory.texts ++ ts
    | .error e => r.decodeStructure h (a ++ t) = .error e := by
  rw [Entry.outcome, hx.type]
  by_cases hin : h.length.toNat ≤ t.length
  · have hrun := @decodeStructure_run a h x.area x.rest [] hx.placed (.inl rfl) r
    have hstate : a ++ x.area ++ (x.rest ++ []) = a ++ t := by
      rw [List.append_nil, List.append_assoc, ← hx.split_eq hin]
    rw [hstate] at hrun
    cases htexts : structureTexts h.type x.area (textAt x.rest) with
    | error e => simpa only [htexts] using hrun
    | ok ts =>
        simp only [htexts] at hrun ⊢
        obtain ⟨r', l', hrun, -, hr⟩ := hrun
        exact ⟨r', _, hrun, hr⟩
  · have hrest : x.rest = [] := by
      rw [hx.rest, List.drop_eq_nil_iff]
      omega
    have hbeyond : (a ++ t).length ≤ h.data + h.length.toNat := by
      rw [List.length_append, hx.data]
      omega
    have hrun := decodeStructure_beyond hbeyond hx.length_area r
    rw [hrest]
    cases htexts : structureTexts h.type x.area (textAt []) with
    | error e => simpa only [htexts] using hrun
    | ok ts =>
        simp only [htexts] at hrun ⊢
        obtain ⟨r', hrun, hr⟩ := hrun
        exact ⟨r', _, hrun, hr⟩

theorem decodeLast_run {x : Entry} (hx : x.At a t h) (hsize : size = (a ++ t).length)
    (hlt : size < 2 ^ 32) (hheader : 4 ≤ t.length) (hcut : cut x.rest = none) (hn : 0 < n) :
    Reports (decodeBody apple size n r h) (a ++ t) r (x.lastOutcome apple size) := by
  have hk := h.length.toNat_lt
  have hlen : size = a.length + t.length := by rw [hsize, List.length_append]
  have hdrop : (a ++ t).drop (h.data + h.length.toNat) = x.rest := by
    rw [hx.data, List.drop_append, hx.rest, List.drop_eq_nil_of_le (by omega), List.nil_append,
      Nat.add_sub_cancel_left]
  have hfind := @findNext_none apple size (h.data + h.length.toNat) (a ++ t) (by rwa [hdrop]) hsize
    hlt (by omega) (by rw [hx.data]; omega)
  have hstop : h.data + h.length.toNat = x.stop := by rw [hx.data, hx.stop]
  rw [hstop] at hfind
  unfold Entry.lastOutcome
  by_cases hwrap : 2 ^ 32 ≤ x.stop + 1
  · rw [if_pos hwrap] at hfind ⊢
    have hbody : decodeBody apple size n r h (a ++ t) = .error .outside := by
      rw [decodeBody, StateT.bind_eq, hstop, hfind]
      rfl
    exact hbody
  rw [if_neg hwrap] at hfind ⊢
  set next := max x.stop (size - 1) + (if apple then 0 else 2) with hnext
  have hbody : decodeBody apple size n r h (a ++ t) =
      (if size < DmiReader.uint32 next then pure r
        else r.decodeStructure h >>= DmiReader.decodeLoop apple size n next : Run DmiReader)
        (a ++ t) := by
    rw [decodeBody, StateT.bind_eq, hstop, hfind]
    rfl
  have htaken : x.Taken apple size ↔ ¬ size < DmiReader.uint32 next := by
    rw [Entry.Taken, hnext, DmiReader.uint32]
    cases apple with
    | true =>
        simp only [if_true]
        omega
    | false =>
        simp only [Bool.false_eq_true, if_false]
        omega
  refine Reports.of_eq hbody ?_
  by_cases hyes : x.Taken apple size
  · rw [if_pos hyes, if_neg (htaken.mp hyes)]
    obtain ⟨n, rfl⟩ := Nat.exists_eq_succ_of_ne_zero hn.ne'
    have hdone : size < next + 4 := by
      rw [hnext]
      omega
    have hrun := decodeTaken_run hx r
    cases hout : x.outcome with
    | error e =>
        simp only [hout] at hrun
        have hfail : (r.decodeStructure h >>= DmiReader.decodeLoop apple size (n + 1) next)
            (a ++ t) = .error e := by
          rw [StateT.bind_eq, hrun]
          rfl
        exact hfail
    | ok ts =>
        simp only [hout] at hrun
        obtain ⟨r', b', hrun, hr⟩ := hrun
        refine ⟨r', b', ?_, hr⟩
        rw [StateT.bind_eq, hrun]
        exact decodeLoop_end hdone n r' b'
  · have hno : size < DmiReader.uint32 next := not_not.mp (htaken.not.mp hyes)
    rw [if_neg hyes, if_pos hno]
    exact reports_pure r _

/-- A structure that ends, and the loop from the next one on. -/
theorem decodeNext_run {x : Entry} {s m t' : List UInt8} {z : Except Fault (List Texts)}
    (hx : x.At a t h) (hsize : size = (a ++ t).length) (hlt : size < 2 ^ 32)
    (hcut : cut x.rest = some (s, m)) (ht' : t' = if apple then zeroPairs m else m)
    (hloop : ∀ a' r', a'.length = a.length + (t.length - t'.length) → (a' ++ t').length = size →
      Reports (DmiReader.decodeLoop apple size n a'.length r') (a' ++ t') r' z) :
    Reports (decodeBody apple size n r h) (a ++ t) r (do
      let t ← x.outcome
      let ts ← z
      .ok (t ++ ts)) := by
  obtain ⟨k, hs, hrest⟩ := cut_some hcut
  obtain ⟨v, hv⟩ : ∃ v, m = v ++ t' := by
    rw [ht']
    split
    · exact zeroPairs_append m
    · exact ⟨[], rfl⟩
  have hin : h.length.toNat ≤ t.length := by
    by_contra hnot
    have hnil : x.rest = [] := by
      rw [hx.rest, List.drop_eq_nil_iff]
      omega
    simp [hnil, hs] at hrest
  have ht := hx.split_eq hin
  have hstate : a ++ t = a ++ x.area ++ x.rest := by rw [List.append_assoc, ← ht]
  have hlen := hx.length_area
  have hnext : h.data + h.length.toNat = (a ++ x.area).length := by
    rw [List.length_append, hx.data, hlen]
  have hfind := @findNext_cut apple size _ (a ++ x.area) x.rest m s hcut hnext
    (by rw [hsize, hstate]) hlt
  rw [← ht', ← hstate] at hfind
  set next := h.data + h.length.toNat + (x.rest.length - t'.length) with hn
  have hlengths : t.length = x.area.length + x.rest.length ∧
      x.rest.length = s.length + (v.length + t'.length) := by
    rw [ht, hrest, hv]
    simp
  have hnextlen : next = a.length + (t.length - t'.length) := by
    rw [hn, hnext, List.length_append]
    omega
  have htotal : size = a.length + t.length := by rw [hsize, List.length_append]
  have hinside : ¬ size < DmiReader.uint32 next := by
    rw [uint32_of_lt (by omega)]
    omega
  have hbody : decodeBody apple size n r h (a ++ t) =
      (r.decodeStructure h >>= DmiReader.decodeLoop apple size n next) (a ++ t) := by
    rw [decodeBody, StateT.bind_eq, hfind]
    simp only [Except.bind]
    rw [if_neg hinside]
  refine Reports.of_eq hbody (Reports.bind ?_)
  have hrun := decodeStructure_run hx.placed (closed_cut hcut) r
  have htext : textAt x.rest = textAt s := funext (textAt_cut hcut)
  rw [Entry.outcome, hx.type, htext, hstate, hrest]
  cases htexts : structureTexts h.type x.area (textAt s) with
  | error e => simpa only [htexts] using hrun
  | ok ts =>
      simp only [htexts] at hrun ⊢
      obtain ⟨r', s', hrun, hs', hr⟩ := hrun
      refine ⟨r', _, hrun, hr, ?_⟩
      have hsplit : a ++ x.area ++ (s' ++ m) = (a ++ x.area ++ s' ++ v) ++ t' := by simp [hv]
      have hdata : (a ++ x.area ++ s' ++ v).length = next := by
        rw [hnextlen]
        simp only [List.length_append]
        omega
      rw [hsplit, ← hdata]
      refine hloop _ r' ?_ ?_
      · rw [hdata, hnextlen]
      · rw [List.length_append, hdata, hnextlen]
        omega

/-- The loop goes along the structures of the table. -/
theorem decodeLoop_run (apple : Bool) (n : Nat) (a t : List UInt8) (r : DmiReader)
    (hn : t.length < n) (hlt : (a ++ t).length < 2 ^ 32) :
    Reports (DmiReader.decodeLoop apple (a ++ t).length n a.length r) (a ++ t) r
      (tableTexts apple (a ++ t).length (split apple n a.length t).2
        (split apple n a.length t).1) := by
  induction n generalizing a t r with
  | zero => omega
  | succ n ih =>
      match t with
      | [] | [_] | [_, _] | [_, _, _] =>
          exact Reports.of_eq (decodeLoop_end (by simp) n r _) (reports_pure r _)
      | type :: length :: lo :: hi :: t =>
          obtain ⟨handle, hbody⟩ := @decodeLoop_body apple _ n a t r type length lo hi rfl
          refine Reports.of_eq hbody ?_
          by_cases hstop : length < 4 ∨ type = 127
          · rw [if_pos hstop, split, if_pos hstop]
            exact reports_pure r _
          rw [if_neg hstop, split, if_neg hstop]
          set table := type :: length :: lo :: hi :: t with htable
          set h : DmiHeader := ⟨type, length, handle, a.length⟩ with hh
          set x : Entry := ⟨type, table.take length.toNat ++
            List.replicate (length.toNat - table.length) 0, table.drop length.toNat,
            a.length + length.toNat⟩ with hx
          have hat : x.At a table h := ⟨rfl, rfl, rfl, rfl, rfl⟩
          cases hcut : cut x.rest with
          | none =>
              simp only [hx] at hcut ⊢
              simp only [hcut]
              exact decodeLast_run hat rfl hlt (by simp [htable]) hcut
                (by simp [htable] at hn; omega)
          | some p =>
              obtain ⟨s, m⟩ := p
              simp only [hx] at hcut ⊢
              simp only [hcut, tableTexts]
              refine decodeNext_run hat rfl hlt hcut rfl fun a' r' ha' hsize => ?_
              have hlen : m.length < n := by
                obtain ⟨k, rfl, hrest⟩ := cut_some hcut
                have hle := congrArg List.length hrest
                simp only [List.length_drop, List.length_append, List.length_cons] at hle
                omega
              have hlen' : (if apple then zeroPairs m else m).length < n := by
                split
                · obtain ⟨z, hz⟩ := zeroPairs_append m
                  have hle := congrArg List.length hz
                  rw [List.length_append] at hle
                  omega
                · exact hlen
              have hnext := ih a' _ r' hlen' (by rwa [hsize])
              rw [hsize] at hnext
              rwa [← ha']

end

end Dmi

end XLArig
