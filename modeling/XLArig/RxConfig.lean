import XLArig.MsrItem
import XLArig.Pool.Config
import XLArig.RandomX

/-!
# XLArig.RxConfig

`crypto/rx/RxConfig`: the settings of RandomX, as they are read from the configuration and
written to it.
-/

namespace XLArig

namespace Json

/-- `IsInt` and `GetInt`. -/
def int? : Json → Option Int
  | int n => if -2 ^ 31 ≤ n ∧ n < 2 ^ 31 then some n else none
  | _ => none

/-- `IsUint` and `GetUint`. -/
def uint? : Json → Option UInt32
  | int n => if 0 ≤ n ∧ n < 2 ^ 32 then some (.ofNat n.toNat) else none
  | _ => none

/-- `Json::getInt`. -/
def getInt (obj : Json) (key : List UInt8) (defaultValue : Int) : Int :=
  (obj.getValue key).int?.getD defaultValue

end Json

/-- `RxConfig::ScratchpadPrefetchMode`. -/
inductive ScratchpadPrefetchMode
  | Off
  | T0
  | NTA
  | Mov
  deriving DecidableEq, Repr

namespace ScratchpadPrefetchMode

def toInt : ScratchpadPrefetchMode → Int
  | Off => 0
  | T0 => 1
  | NTA => 2
  | Mov => 3

/-- The mode with a number, cast to `uint32_t`. -/
def ofInt (n : Int) : Option ScratchpadPrefetchMode :=
  [Off, T0, NTA, Mov].find? fun mode => mode.toInt = n % 2 ^ 32

end ScratchpadPrefetchMode

/-- What the program is built with, and whether the processor is one of Intel's. -/
structure RxPlatform where
  msr : Bool
  hwloc : Bool
  linux : Bool
  intel : Bool

/-- `RxConfig`. -/
structure RxConfig where
  wrmsr : Bool
  msrPreset : List MsrItem
  cacheQoS : Bool
  oneGbPages : Bool
  rdmsr : Bool
  threads : Int
  initDatasetAVX2 : Int
  mode : RxMode
  scratchpadPrefetchMode : ScratchpadPrefetchMode
  numa : Bool
  nodeset : List UInt32
  deriving DecidableEq

/-- `modeNames`. -/
def RxMode.names : List (RxMode × List UInt8) :=
  [(.AutoMode, bytes "auto"), (.FastMode, bytes "fast"), (.LightMode, bytes "light")]

/-- `modeName`. -/
def RxMode.name : RxMode → List UInt8
  | .AutoMode => bytes "auto"
  | .FastMode => bytes "fast"
  | .LightMode => bytes "light"

namespace RxConfig

variable (p : RxPlatform)

/-- A fresh configuration. -/
def new : RxConfig where
  wrmsr := p.msr
  msrPreset := []
  cacheQoS := false
  oneGbPages := false
  rdmsr := true
  threads := -1
  initDatasetAVX2 := -1
  mode := .AutoMode
  scratchpadPrefetchMode := .T0
  numa := true
  nodeset := []

/-! ## Reading -/

/-- `readMode`. -/
def readMode (value : Json) : RxMode :=
  match value with
  | .string s =>
      ((RxMode.names.find? fun x => CString.sameIgnoringCase (Json.cstr s) x.2).map Prod.fst).getD
        .AutoMode
  | value =>
      match value.uint? with
      | some n => if n = 0 then .AutoMode else if n = 1 then .FastMode else .LightMode
      | none => .AutoMode

/-- `readMSR`. -/
def readMSR (c : RxConfig) (value : Json) : RxConfig :=
  match value with
  | .bool wrmsr => { c with wrmsr }
  | .array elements =>
      let msrPreset := c.msrPreset ++ (elements.map MsrItem.ofJSON).filter MsrItem.isValid
      { c with
        msrPreset
        wrmsr := !msrPreset.isEmpty }
  | value =>
      match value.int? with
      | none => c
      | some n =>
          if !p.intel then c
          else
            let i := min n 15
            if i ≥ 0 then
              { c with msrPreset := c.msrPreset ++ [⟨0x1a4, .ofNat i.toNat, MsrItem.kNoMask⟩] }
            else { c with wrmsr := false }

/-- The part of `read` about NUMA nodes. -/
def readNUMA (c : RxConfig) (numa : Json) : RxConfig :=
  match numa with
  | .array elements => { c with nodeset := c.nodeset ++ elements.filterMap Json.uint? }
  | .bool numa => { c with numa }
  | _ => c

/-- The end of `read`. -/
def readPrefetchMode (c : RxConfig) (value : Json) : RxConfig :=
  let n := value.getInt (bytes "scratchpad_prefetch_mode") c.scratchpadPrefetchMode.toInt
  { c with
    scratchpadPrefetchMode := (ScratchpadPrefetchMode.ofInt n).getD c.scratchpadPrefetchMode }

/-- The members that are read in every mode. -/
def readMembers (c : RxConfig) (value : Json) : RxConfig :=
  let c := { c with
    threads := value.getInt (bytes "init") c.threads
    initDatasetAVX2 := value.getInt (bytes "init-avx2") c.initDatasetAVX2
    mode := readMode (value.getValue (bytes "mode"))
    rdmsr := value.getBool (bytes "rdmsr") c.rdmsr }
  let c := if p.msr then c.readMSR p (value.getValue (bytes "wrmsr")) else c
  { c with
    cacheQoS := value.getBool (bytes "cache_qos") c.cacheQoS
    oneGbPages := if p.linux then value.getBool (bytes "1gb-pages") c.oneGbPages else c.oneGbPages }

/-- `read`, and whether there was something to read.  In light mode the end is left out. -/
def read (c : RxConfig) (value : Json) : RxConfig × Bool :=
  if !value.isObject then (c, false)
  else
    let c := c.readMembers p value
    if p.hwloc then
      if c.mode = .LightMode then ({ c with numa := false }, true)
      else ((c.readNUMA (value.getValue (bytes "numa"))).readPrefetchMode value, true)
    else (c.readPrefetchMode value, true)

/-! ## Writing -/

def wrmsrToJSON (c : RxConfig) : Json :=
  if !p.msr then .bool false
  else if c.msrPreset ≠ [] then .array (c.msrPreset.map MsrItem.toJSON)
  else .bool c.wrmsr

def numaToJSON (c : RxConfig) : Json :=
  if c.nodeset ≠ [] then .array (c.nodeset.map fun n => .int n.toNat) else .bool c.numa

/-- `RxConfig::toJSON`. -/
def toJSON (c : RxConfig) : Json :=
  .object ([(bytes "init", .int c.threads), (bytes "init-avx2", .int c.initDatasetAVX2),
    (bytes "mode", .string c.mode.name), (bytes "1gb-pages", .bool c.oneGbPages),
    (bytes "rdmsr", .bool c.rdmsr), (bytes "wrmsr", c.wrmsrToJSON p),
    (bytes "cache_qos", .bool c.cacheQoS)] ++
    (if p.hwloc then [(bytes "numa", c.numaToJSON)] else []) ++
    [(bytes "scratchpad_prefetch_mode", .int c.scratchpadPrefetchMode.toInt)])

/-- What a configuration is after it was saved and read again. -/
def reload (c : RxConfig) : RxConfig := ((new p).read p (c.toJSON p)).1

/-! ## What was written is found again -/

variable {p} {c : RxConfig}

theorem getValue_toJSON (p : RxPlatform) (c : RxConfig) :
    (c.toJSON p).getValue (bytes "init") = .int c.threads ∧
    (c.toJSON p).getValue (bytes "init-avx2") = .int c.initDatasetAVX2 ∧
    (c.toJSON p).getValue (bytes "mode") = .string c.mode.name ∧
    (c.toJSON p).getValue (bytes "1gb-pages") = .bool c.oneGbPages ∧
    (c.toJSON p).getValue (bytes "rdmsr") = .bool c.rdmsr ∧
    (c.toJSON p).getValue (bytes "wrmsr") = c.wrmsrToJSON p ∧
    (c.toJSON p).getValue (bytes "cache_qos") = .bool c.cacheQoS := ⟨rfl, rfl, rfl, rfl, rfl, rfl, rfl⟩

theorem getValue_prefetch (p : RxPlatform) (c : RxConfig) :
    (c.toJSON p).getValue (bytes "scratchpad_prefetch_mode") =
      .int c.scratchpadPrefetchMode.toInt := by
  unfold toJSON
  cases p.hwloc <;> rfl

theorem getValue_numa (h : p.hwloc = true) :
    (c.toJSON p).getValue (bytes "numa") = c.numaToJSON := by
  unfold toJSON
  rw [h]
  rfl

/-! ## What a configuration that was read is like -/

/-- A number that `getInt` gives back. -/
def IsInt (n : Int) : Prop := -2 ^ 31 ≤ n ∧ n < 2 ^ 31

/-- Before the NUMA nodes and the prefetch mode were read. -/
structure Begun (p : RxPlatform) (c : RxConfig) : Prop where
  threads : IsInt c.threads
  initDatasetAVX2 : IsInt c.initDatasetAVX2
  msr : p.msr = false → c.wrmsr = false ∧ c.msrPreset = []
  wrmsr : c.msrPreset ≠ [] → c.wrmsr = true
  items : ∀ item ∈ c.msrPreset, item.isValid = true
  oneGbPages : p.linux = false → c.oneGbPages = false

structure Valid (p : RxPlatform) (c : RxConfig) : Prop extends Begun p c where
  hwloc : p.hwloc = false → c.numa = true ∧ c.nodeset = []
  light : p.hwloc = true → c.mode = .LightMode →
    c.numa = false ∧ c.nodeset = [] ∧ c.scratchpadPrefetchMode = .T0
  numa : p.hwloc = true → c.nodeset ≠ [] → c.numa = true

theorem isInt_getInt {obj : Json} {key : List UInt8} {n : Int} (h : IsInt n) :
    IsInt (obj.getInt key n) := by
  unfold Json.getInt
  cases hi : (obj.getValue key).int? with
  | none => exact h
  | some m =>
      revert hi
      unfold Json.int?
      split
      · intro hi
        obtain ⟨hm, hm'⟩ := Option.ite_none_right_eq_some.mp hi
        exact Option.some.inj hm' ▸ hm
      · intro hi
        contradiction

theorem isInt_neg_one : IsInt (-1) := by
  unfold IsInt
  omega

theorem begun_new (p : RxPlatform) : (new p).Begun p where
  threads := isInt_neg_one
  initDatasetAVX2 := isInt_neg_one
  msr h := ⟨h, rfl⟩
  wrmsr h := absurd rfl h
  items := nofun
  oneGbPages _ := rfl

/-- The items of an array, or the one that a number stands for. -/
theorem readMSR_cases (c : RxConfig) (value : Json) (hnil : c.msrPreset = [])
    (hwrmsr : c.wrmsr = true) :
    (∃ elements, value = .array elements ∧ c.readMSR p value = { c with
        msrPreset := (elements.map MsrItem.ofJSON).filter MsrItem.isValid
        wrmsr := !((elements.map MsrItem.ofJSON).filter MsrItem.isValid).isEmpty }) ∨
      ∃ wrmsr items, c.readMSR p value = { c with
          wrmsr
          msrPreset := items } ∧
        (items ≠ [] → wrmsr = true) ∧
        (∀ item ∈ items, item.isValid = true ∧ item.Fits) ∧ ∀ elements, value ≠ .array elements := by
  unfold readMSR
  cases value with
  | array elements => exact .inl ⟨elements, rfl, by simp [hnil]⟩
  | bool wrmsr => exact .inr ⟨wrmsr, [], by simp [hnil]⟩
  | int n =>
      refine .inr ?_
      dsimp only
      cases (Json.int n).int? with
      | none => exact ⟨c.wrmsr, [], by simp [← hnil], by simp, by simp, by simp⟩
      | some m =>
          dsimp only
          split_ifs
          · exact ⟨c.wrmsr, [], by simp [← hnil], by simp, by simp, by simp⟩
          · refine ⟨true, [⟨0x1a4, .ofNat (min m 15).toNat, MsrItem.kNoMask⟩],
              by simp [hnil, ← hwrmsr], by simp, ?_, by simp⟩
            simp only [List.mem_singleton, forall_eq]
            exact ⟨rfl, fun h => absurd (show 2 ^ 28 ≤ (0x1a4 : UInt32).toNat from h.1) (by decide)⟩
          · exact ⟨false, [], by simp [← hnil], by simp, by simp, by simp⟩
  | null | double _ | string _ | object _ =>
      exact .inr ⟨c.wrmsr, [], by simp [← hnil, Json.int?], by simp, by simp, by simp⟩

theorem begun_readMSR (hmsr : p.msr = true) (h : c.Begun p) (hnil : c.msrPreset = [])
    (hwrmsr : c.wrmsr = true) (value : Json) : (c.readMSR p value).Begun p := by
  obtain ⟨elements, -, hread⟩ | ⟨wrmsr, items, hread, hpreset, hitems, -⟩ :=
    readMSR_cases (p := p) c value hnil hwrmsr <;> rw [hread]
  · refine { h with
      msr := fun hoff => absurd (hmsr.symm.trans hoff) (by decide)
      wrmsr := ?_
      items := ?_ }
    · intro hne
      simpa using hne
    · intro item hitem
      exact (List.mem_filter.mp hitem).2
  · exact { h with
      msr := fun hoff => absurd (hmsr.symm.trans hoff) (by decide)
      wrmsr := hpreset
      items := fun item hitem => (hitems item hitem).1 }

/-- What `readMSR` leaves alone. -/
theorem readMSR_rest (c : RxConfig) (value : Json) :
    (c.readMSR p value).numa = c.numa ∧ (c.readMSR p value).nodeset = c.nodeset ∧
      (c.readMSR p value).scratchpadPrefetchMode = c.scratchpadPrefetchMode := by
  unfold readMSR
  split
  · exact ⟨rfl, rfl, rfl⟩
  · exact ⟨rfl, rfl, rfl⟩
  · split
    · exact ⟨rfl, rfl, rfl⟩
    · dsimp only
      split_ifs <;> exact ⟨rfl, rfl, rfl⟩

theorem begun_readMembers (p : RxPlatform) (value : Json) :
    ((new p).readMembers p value).Begun p ∧ ((new p).readMembers p value).numa = true ∧
      ((new p).readMembers p value).nodeset = [] ∧
      ((new p).readMembers p value).scratchpadPrefetchMode = .T0 := by
  let first : RxConfig := { new p with
    threads := value.getInt (bytes "init") (-1)
    initDatasetAVX2 := value.getInt (bytes "init-avx2") (-1)
    mode := readMode (value.getValue (bytes "mode"))
    rdmsr := value.getBool (bytes "rdmsr") true }
  have hfirst : first.Begun p := { begun_new p with
    threads := isInt_getInt isInt_neg_one
    initDatasetAVX2 := isInt_getInt isInt_neg_one }
  have hmsr : ∀ c : RxConfig, c.Begun p → ∀ cacheQoS oneGbPages, Begun p { c with
      cacheQoS
      oneGbPages := if p.linux then oneGbPages else c.oneGbPages } := by
    intro c hc cacheQoS oneGbPages
    refine { hc with oneGbPages := ?_ }
    intro hoff
    dsimp only
    rw [if_neg (by simp [hoff])]
    exact hc.oneGbPages hoff
  unfold readMembers
  dsimp only
  split
  · next hon =>
    have hrest := readMSR_rest (p := p) first (value.getValue (bytes "wrmsr"))
    exact ⟨hmsr _ (begun_readMSR hon hfirst rfl hon _) _ _, hrest.1, hrest.2.1, hrest.2.2⟩
  · exact ⟨hmsr first hfirst _ _, rfl, rfl, rfl⟩

theorem valid_read (p : RxPlatform) (value : Json) : ((new p).read p value).1.Valid p := by
  obtain ⟨hbegun, hnuma, hnodeset, hprefetch⟩ := begun_readMembers p value
  unfold read
  dsimp only
  split_ifs with hobject hhwloc hlight
  · exact { begun_new p with
      hwloc := fun _ => ⟨rfl, rfl⟩
      light := fun _ h => nomatch h
      numa := fun _ _ => rfl }
  · exact { hbegun with
      hwloc := fun hoff => absurd (hhwloc.symm.trans hoff) (by decide)
      light := fun _ _ => ⟨rfl, hnodeset, hprefetch⟩
      numa := fun _ hne => absurd hnodeset hne }
  · have hoff : ∀ {q : Prop}, p.hwloc = false → q := fun hoff =>
      absurd (hhwloc.symm.trans hoff) (by decide)
    unfold readPrefetchMode readNUMA
    dsimp only
    split
    · exact { hbegun with
        hwloc := hoff
        light := fun _ h => absurd h hlight
        numa := fun _ _ => hnuma }
    · exact { hbegun with
        hwloc := hoff
        light := fun _ h => absurd h hlight
        numa := fun _ hne => absurd hnodeset hne }
    · exact { hbegun with
        hwloc := hoff
        light := fun _ h => absurd h hlight
        numa := fun _ _ => hnuma }
  · exact { hbegun with
      hwloc := fun _ => ⟨hnuma, hnodeset⟩
      light := fun hon => absurd hon hhwloc
      numa := fun hon => absurd hon hhwloc }

/-! ## Reading what was written -/

theorem getInt_int {obj : Json} {key : List UInt8} {n m : Int} (h : obj.getValue key = .int n)
    (hn : IsInt n) : obj.getInt key m = n := by
  unfold Json.getInt
  rw [h]
  simp only [Json.int?]
  rw [if_pos (show -2 ^ 31 ≤ n ∧ n < 2 ^ 31 from hn)]
  rfl

theorem getBool_bool {obj : Json} {key : List UInt8} {b b' : Bool}
    (h : obj.getValue key = .bool b) : obj.getBool key b' = b := by
  unfold Json.getBool
  rw [h]

theorem readMode_name (mode : RxMode) : readMode (.string mode.name) = mode := by
  cases mode <;> rfl

theorem readPrefetchMode_toJSON (p : RxPlatform) (c c' : RxConfig) :
    c'.readPrefetchMode (c.toJSON p) =
      { c' with scratchpadPrefetchMode := c.scratchpadPrefetchMode } := by
  have hint : IsInt c.scratchpadPrefetchMode.toInt := by
    unfold IsInt
    cases c.scratchpadPrefetchMode <;> simp [ScratchpadPrefetchMode.toInt]
  unfold readPrefetchMode
  rw [getInt_int (getValue_prefetch p c) hint]
  cases c.scratchpadPrefetchMode <;> rfl

theorem uint?_toNat (n : UInt32) : (Json.int n.toNat).uint? = some n := by
  have hlt := n.toNat_lt
  simp only [Json.uint?]
  rw [if_pos ⟨by omega, by omega⟩, Int.toNat_natCast, UInt32.ofNat_toNat]

theorem readNUMA_toJSON (hnuma : c.nodeset ≠ [] → c.numa = true) {c' : RxConfig}
    (hnuma' : c'.numa = true) (hnil : c'.nodeset = []) : c'.readNUMA c.numaToJSON = { c' with
      numa := c.numa
      nodeset := c.nodeset } := by
  unfold numaToJSON
  split_ifs with hempty
  · have hnodes : (c.nodeset.map fun n => Json.int n.toNat).filterMap Json.uint? = c.nodeset := by
      have hnode : (Json.uint? ∘ fun n : UInt32 => Json.int n.toNat) = some := by
        funext n
        rw [Function.comp_apply, uint?_toNat]
      rw [List.filterMap_map, hnode, List.filterMap_some]
    simp only [readNUMA]
    rw [hnodes, hnil, List.nil_append, hnuma hempty, ← hnuma']
  · rw [not_not] at hempty
    simp only [readNUMA]
    rw [hempty, ← hnil]

/-- The items after they were written and read. -/
theorem readMSR_toJSON (hmsr : p.msr = true) (hwrmsr : c.msrPreset ≠ [] → c.wrmsr = true)
    (hitems : ∀ item ∈ c.msrPreset, item.isValid = true) {c' : RxConfig} (hnil : c'.msrPreset = []) :
    c'.readMSR p (c.wrmsrToJSON p) = { c' with
      wrmsr := c.wrmsr
      msrPreset := c.msrPreset.map fun item => MsrItem.ofJSON item.toJSON } := by
  unfold wrmsrToJSON
  rw [if_neg (by simp [hmsr])]
  split_ifs with hempty
  · have hkeep : ((c.msrPreset.map MsrItem.toJSON).map MsrItem.ofJSON).filter MsrItem.isValid =
        c.msrPreset.map fun item => MsrItem.ofJSON item.toJSON := by
      rw [List.map_map]
      refine List.filter_eq_self.mpr ?_
      intro item hitem
      obtain ⟨item, hmem, rfl⟩ := List.mem_map.mp hitem
      exact (MsrItem.isValid_ofJSON_toJSON item).trans (hitems item hmem)
    simp only [readMSR]
    rw [hkeep, hnil, List.nil_append, hwrmsr hempty]
    simp [hempty]
  · rw [not_not] at hempty
    simp only [readMSR]
    rw [hempty, List.map_nil, ← hnil]

theorem readMembers_toJSON (h : c.Begun p) : (new p).readMembers p (c.toJSON p) = { c with
    msrPreset := c.msrPreset.map fun item => MsrItem.ofJSON item.toJSON
    scratchpadPrefetchMode := .T0
    numa := true
    nodeset := [] } := by
  obtain ⟨hinit, havx2, hmode, hgb, hrdmsr, hwrmsr, hqos⟩ := getValue_toJSON p c
  unfold readMembers
  dsimp only
  rw [getInt_int hinit h.threads, getInt_int havx2 h.initDatasetAVX2, hmode, readMode_name,
    getBool_bool hrdmsr, getBool_bool hqos, getBool_bool hgb, hwrmsr]
  have hgb' : (if p.linux = true then c.oneGbPages else false) = c.oneGbPages := by
    cases hlinux : p.linux with
    | true => rfl
    | false => exact (h.oneGbPages hlinux).symm
  split
  · next hmsr =>
    rw [readMSR_toJSON hmsr h.wrmsr h.items rfl]
    simp only [new]
    rw [hgb']
  · next hmsr =>
    obtain ⟨hoff, hnil⟩ := h.msr (Bool.not_eq_true _ |>.mp hmsr)
    simp only [new]
    rw [hgb', hnil, hoff, Bool.not_eq_true _ |>.mp hmsr]
    rfl

/-- A configuration that was read is the same after another turn, but for its items. -/
theorem reload_eq (h : c.Valid p) : c.reload p =
    { c with msrPreset := c.msrPreset.map fun item => MsrItem.ofJSON item.toJSON } := by
  have hobject : (c.toJSON p).isObject = true := rfl
  unfold reload read
  rw [hobject, readMembers_toJSON h.toBegun]
  dsimp only
  rw [Bool.not_true, if_neg Bool.false_ne_true]
  split_ifs with hhwloc hlight
  · obtain ⟨hnuma, hnodeset, hprefetch⟩ := h.light hhwloc hlight
    rw [← hnuma, ← hnodeset, ← hprefetch]
  · rw [getValue_numa hhwloc, readNUMA_toJSON (h.numa hhwloc) rfl rfl, readPrefetchMode_toJSON]
  · obtain ⟨hnuma, hnodeset⟩ := h.hwloc (Bool.not_eq_true _ |>.mp hhwloc)
    rw [readPrefetchMode_toJSON, ← hnuma, ← hnodeset]

/-! ## Which configurations stay -/

/-- The text of every item that is set fits into its buffer. -/
def ItemsFit (value : Json) : Prop :=
  match value.getValue (bytes "wrmsr") with
  | .array elements =>
      ∀ x ∈ elements, (MsrItem.ofJSON x).isValid = true → (MsrItem.ofJSON x).Fits
  | _ => True

/-- `msrPreset` is read before what depends on the mode. -/
theorem msrPreset_read (p : RxPlatform) {value : Json} (h : value.isObject = true) :
    ((new p).read p value).1.msrPreset = ((new p).readMembers p value).msrPreset := by
  unfold read
  dsimp only
  rw [h, Bool.not_true, if_neg Bool.false_ne_true]
  split_ifs
  · rfl
  · unfold readPrefetchMode readNUMA
    dsimp only
    split <;> rfl
  · rfl

theorem fits_read (p : RxPlatform) (value : Json) :
    (∀ item ∈ ((new p).read p value).1.msrPreset, item.Fits) ↔ (p.msr = true → ItemsFit value) := by
  cases hobject : value.isObject with
  | false =>
      have hread : ((new p).read p value).1 = new p := by
        unfold read
        rw [hobject]
        rfl
      have hvalue : value.getValue (bytes "wrmsr") = .null := Json.getValue_of_not_object hobject _
      rw [hread]
      simp [new, ItemsFit, hvalue]
  | true =>
      rw [msrPreset_read p hobject]
      unfold readMembers
      dsimp only
      split
      · next hmsr =>
        simp only [hmsr, true_implies]
        obtain ⟨elements, harray, hread⟩ | ⟨wrmsr, items, hread, -, hitems, harray⟩ :=
          readMSR_cases (p := p) { new p with
            threads := value.getInt (bytes "init") (new p).threads
            initDatasetAVX2 := value.getInt (bytes "init-avx2") (new p).initDatasetAVX2
            mode := readMode (value.getValue (bytes "mode"))
            rdmsr := value.getBool (bytes "rdmsr") (new p).rdmsr }
            (value.getValue (bytes "wrmsr")) rfl hmsr <;> rw [hread]
        · unfold ItemsFit
          rw [harray]
          simp only [List.mem_filter, List.mem_map, and_imp, forall_exists_index,
            forall_apply_eq_imp_iff₂]
        · have hfits : ItemsFit value := by
            unfold ItemsFit
            split
            · next elements helements => exact absurd helements (harray elements)
            · trivial
          exact iff_of_true (fun item hitem => (hitems item hitem).2) hfits
      · next hmsr => simp [new, hmsr]

/-- **Which settings survive.**  A configuration is the same after it was saved and read again
just when the texts of its items fit into their buffers; where one does not, its mask is
another. -/
theorem reload_iff (p : RxPlatform) (value : Json) (item : MsrItem) :
    (let c := ((new p).read p value).1
    (c.reload p = c ↔ (p.msr = true → ItemsFit value)) ∧
      ((c.reload p).msrPreset = c.msrPreset ↔ (p.msr = true → ItemsFit value))) ∧
    (MsrItem.ofJSON item.toJSON = item ↔ item.Fits) := by
  refine ⟨?_, MsrItem.ofJSON_toJSON_iff item⟩
  have hmap : ∀ items : List MsrItem,
      items.map (fun item => MsrItem.ofJSON item.toJSON) = items ↔ ∀ item ∈ items, item.Fits := by
    intro items
    induction items with
    | nil => simp
    | cons item items ih => simp [ih, MsrItem.ofJSON_toJSON_iff]
  intro c
  have hreload : c.reload p = _ := reload_eq (valid_read p value)
  have hpreset : (c.reload p).msrPreset = c.msrPreset ↔ (p.msr = true → ItemsFit value) := by
    rw [hreload, ← fits_read p value]
    exact hmap _
  refine ⟨⟨fun h => hpreset.mp (by rw [h]), fun h => ?_⟩, hpreset⟩
  have hsame := hpreset.mpr h
  rw [hreload] at hsame ⊢
  dsimp only at hsame
  rw [hsame]

/-- The last digit of a long mask is lost on the way. -/
theorem loses_digit :
    let p : RxPlatform := ⟨true, true, true, false⟩
    let value : Json := .object [(bytes "wrmsr",
      .array [.string (bytes "0xC0011020:0xc000000401500000:0xfffffffffffffffe")])]
    let c := ((new p).read p value).1
    c.msrPreset = [⟨0xC0011020, 0xc000000401500000, 0xfffffffffffffffe⟩] ∧
      (c.reload p).msrPreset = [⟨0xC0011020, 0xc000000401500000, 0x0fffffffffffffff⟩] ∧
      (c.reload p).msrPreset ≠ c.msrPreset := by
  decide +kernel

end RxConfig

end XLArig
