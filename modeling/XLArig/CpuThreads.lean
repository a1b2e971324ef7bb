import XLArig.Pool.Names
import XLArig.RxConfig

/-!
# XLArig.CpuThreads

`backend/cpu/CpuThread` and `CpuThreads`: the threads of a profile, as they are read from the
configuration and written to it.

What was read is written so that it is read the same; `CpuThreads.ofJSON_toJSON` says so for
what was read of JSON and `CpuThreads.ofJSON_ofList` for threads that were added one by one.
-/

namespace XLArig

namespace Json

/-- `Json::getUint`. -/
def getUint (obj : Json) (key : List UInt8) (defaultValue : UInt32) : UInt32 :=
  (obj.getValue key).uint?.getD defaultValue

/-- `GetUint`, which takes the low half of any integer. -/
def asUint : Json → UInt32
  | int n => .ofNat (n % 2 ^ 32).toNat
  | _ => 0

/-- `GetInt`, which takes the low half of any integer. -/
def asInt : Json → Int
  | int n => n.bmod (2 ^ 32)
  | _ => 0

end Json

namespace CString

/-- The value of a hexadecimal digit. -/
def hexDigit? (c : UInt8) : Option Nat :=
  if isDigit c then some (c.toNat - 0x30)
  else if 0x61 ≤ tolower c ∧ tolower c ≤ 0x66 then some ((tolower c).toNat - 0x57)
  else none

/-- `strtoll` with base 16, of a text that begins with `0x`. -/
def strtollHex (s : List UInt8) : Int :=
  let digits := ((s.drop 2).takeWhile fun c => (hexDigit? c).isSome).filterMap hexDigit?
  min (digits.foldl (fun n d => n * 16 + d) 0 : Nat) (2 ^ 63 - 1)

end CString

/-! ## One thread -/

/-- `CpuThread`. -/
structure CpuThread where
  affinity : Int
  intensity : UInt32
  deriving DecidableEq, Repr

namespace CpuThread

/-- A thread of which nothing is known. -/
def unbound : CpuThread := ⟨-1, 0⟩

/-- `CpuThread(value)`. -/
def ofJSON (value : Json) : CpuThread :=
  match value with
  | .array (intensity :: affinity :: _) => ⟨affinity.asInt, intensity.asUint⟩
  | value =>
      match value.int? with
      | some affinity => ⟨affinity, 0⟩
      | none => unbound

/-- `CpuThread::toJSON`. -/
def toJSON (t : CpuThread) : Json :=
  if t.intensity = 0 then .int t.affinity
  else .array [.int t.intensity.toNat, .int t.affinity]

/-- `CpuThread::isValid`. -/
def isValid (t : CpuThread) : Bool := t.intensity ≤ 5

/-- `CpuThread::intensity`. -/
def lanes (t : CpuThread) : UInt32 := if t.intensity = 0 then 1 else t.intensity

/-- The affinity is one that can be read again. -/
def Int32 (t : CpuThread) : Prop := -2 ^ 31 ≤ t.affinity ∧ t.affinity < 2 ^ 31

instance (t : CpuThread) : Decidable t.Int32 := inferInstanceAs (Decidable (_ ∧ _))

theorem ofJSON_toJSON {t : CpuThread} (h : t.Int32) : ofJSON t.toJSON = t := by
  obtain ⟨affinity, intensity⟩ := t
  obtain ⟨hlow, hhigh⟩ := h
  dsimp only at hlow hhigh
  unfold toJSON
  dsimp only
  split
  · next hzero =>
    subst hzero
    simp only [ofJSON, Json.int?, if_pos (And.intro hlow hhigh)]
  · have haffinity : affinity.bmod (2 ^ 32) = affinity := by
      rw [Int.bmod_def]
      split <;> omega
    have hintensity : UInt32.ofNat ((intensity.toNat : Int) % 2 ^ 32).toNat = intensity := by
      have hlt := intensity.toNat_lt
      rw [← UInt32.toNat_inj, UInt32.toNat_ofNat']
      omega
    simp only [ofJSON, Json.asInt, Json.asUint, haffinity, hintensity]

theorem int32_ofJSON (value : Json) : (ofJSON value).Int32 := by
  have hbmod : ∀ n : Int, -2 ^ 31 ≤ n.bmod (2 ^ 32) ∧ n.bmod (2 ^ 32) < 2 ^ 31 := by
    intro n
    rw [Int.bmod_def]
    split <;> omega
  unfold ofJSON
  split
  · next affinity _ =>
    cases affinity with
    | int n => exact hbmod n
    | _ => exact ⟨(by decide : (-2 ^ 31 : Int) ≤ 0), (by decide : (0 : Int) < 2 ^ 31)⟩
  · split
    · next affinity hint =>
      unfold Json.int? at hint
      split at hint
      · split at hint
        · next hrange => exact Option.some.inj hint ▸ hrange
        · contradiction
      · contradiction
    · decide

end CpuThread

/-! ## The threads of a profile -/

/-- `CpuThreads::Format`. -/
inductive CpuThreads.Format
  | ArrayFormat
  | ObjectFormat
  deriving DecidableEq, Repr

/-- `CpuThreads`. -/
structure CpuThreads where
  format : CpuThreads.Format
  affinity : Int
  data : List CpuThread
  deriving DecidableEq, Repr

namespace CpuThreads

def empty : CpuThreads := ⟨.ArrayFormat, -1, []⟩

/-- What `add` makes of an empty value. -/
def ofList (data : List CpuThread) : CpuThreads := ⟨.ArrayFormat, -1, data⟩

def isEmpty (p : CpuThreads) : Bool := p.data.isEmpty

def count (p : CpuThreads) : Nat := p.data.length

/-- `CpuThreads::isEqual`: the format does not count. -/
def isEqual (a b : CpuThreads) : Bool := a.data == b.data

/-- `getAffinityMask`. -/
def getAffinityMask (value : Json) : Int :=
  match value.int64? with
  | some n => n
  | none =>
      match value with
      | .string s =>
          let arg := Json.cstr s
          match CString.strstr (bytes "0x") arg with
          | some p => CString.strtollHex p
          | none => CString.strtol arg
      | _ => -1

/-- The bits of the mask that are set, from the lowest on. -/
def setBits (affinity : Int) : List Nat :=
  (List.range 64).filter fun i => (affinity % 2 ^ 64).toNat.testBit i

/-- `getAffinity`: the position of the bit `index` of those that are set. -/
def getAffinity (index : Nat) (affinity : Int) : Int :=
  if affinity = -1 then -1
  else
    match (setBits affinity)[index]? with
    | some i => i
    | none => -1

/-- The threads of an object. -/
def ofMask (intensity : UInt32) (threads : Nat) (affinity : Int) : CpuThreads where
  format := .ObjectFormat
  affinity
  data := (List.range threads).map fun i => ⟨getAffinity i affinity, intensity⟩

/-- `CpuThreads(value)`. -/
def ofJSON (value : Json) : CpuThreads :=
  match value with
  | .array elements => ofList ((elements.map CpuThread.ofJSON).filter CpuThread.isValid)
  | .object _ =>
      let intensity := value.getUint (bytes "intensity") 1
      let threads := min (value.getUint (bytes "threads") 0).toNat 1024
      ofMask (if intensity < 1 ∨ 5 < intensity then 1 else intensity) threads
        (getAffinityMask (value.getValue (bytes "affinity")))
  | _ => empty

/-- `CpuThreads::toJSON`. -/
def toJSON (p : CpuThreads) : Json :=
  match p.format with
  | .ArrayFormat => .array (p.data.map CpuThread.toJSON)
  | .ObjectFormat =>
      .object [(bytes "intensity", .int ((p.data.head?.map fun t => t.lanes.toNat).getD 1 : Nat)),
        (bytes "threads", .int (p.data.length % 2 ^ 32 : Nat)), (bytes "affinity", .int p.affinity)]

/-- Threads that were added one by one are read as they were, as long as each of them can be
read. -/
theorem ofJSON_ofList {data : List CpuThread} (h : ∀ t ∈ data, t.isValid = true ∧ t.Int32) :
    ofJSON (ofList data).toJSON = ofList data := by
  have hread : (data.map CpuThread.toJSON).map CpuThread.ofJSON = data := by
    rw [List.map_map]
    exact (List.map_congr_left fun t ht => CpuThread.ofJSON_toJSON (h t ht).2).trans
      (List.map_id data)
  show ofList (((data.map CpuThread.toJSON).map CpuThread.ofJSON).filter CpuThread.isValid) = _
  rw [hread, List.filter_eq_self.mpr fun t ht => (h t ht).1]

theorem getAffinityMask_int {affinity : Int} (h : -2 ^ 63 ≤ affinity ∧ affinity < 2 ^ 63) :
    getAffinityMask (.int affinity) = affinity := by
  unfold getAffinityMask Json.int64?
  dsimp only
  rw [if_pos h]

theorem getAffinityMask_range (value : Json) :
    -2 ^ 63 ≤ getAffinityMask value ∧ getAffinityMask value < 2 ^ 63 := by
  unfold getAffinityMask
  split
  · next n hint =>
    unfold Json.int64? at hint
    split at hint
    · split at hint
      · next hrange => exact Option.some.inj hint ▸ hrange
      · contradiction
    · contradiction
  · split
    · dsimp only
      split
      · unfold CString.strtollHex
        dsimp only
        omega
      · unfold CString.strtol
        dsimp only
        omega
    · decide

/-- What is written of a mask: how many threads there are, and what each of them has. -/
theorem toJSON_ofMask {intensity : UInt32} {threads : Nat} {affinity : Int}
    (hintensity : 1 ≤ intensity) (hthreads : 0 < threads ∧ threads ≤ 1024) :
    (ofMask intensity threads affinity).toJSON =
      .object [(bytes "intensity", .int intensity.toNat), (bytes "threads", .int threads),
        (bytes "affinity", .int affinity)] := by
  have hfirst : ((ofMask intensity threads affinity).data.head?.map fun t => t.lanes.toNat).getD 1 =
      intensity.toNat := by
    obtain ⟨n, rfl⟩ := Nat.exists_eq_succ_of_ne_zero (Nat.pos_iff_ne_zero.mp hthreads.1)
    have hne : intensity ≠ 0 := by
      rintro rfl
      exact absurd hintensity (by decide)
    simp [ofMask, List.range_succ_eq_map, CpuThread.lanes, hne]
  have hcount : (ofMask intensity threads affinity).data.length % 2 ^ 32 = threads := by
    simp only [ofMask, List.length_map, List.length_range]
    omega
  show Json.object [(bytes "intensity", .int (Option.getD _ 1 : Nat)),
    (bytes "threads", .int (_ % 2 ^ 32 : Nat)), (bytes "affinity", .int affinity)] = _
  rw [hfirst, hcount]

theorem uint?_int {n : Nat} (h : n < 2 ^ 32) : (Json.int n).uint? = some (.ofNat n) := by
  unfold Json.uint?
  dsimp only
  rw [if_pos (by omega), Int.toNat_natCast]

/-- So are the threads of a mask, of which there is at least one. -/
theorem ofJSON_ofMask {intensity : UInt32} {threads : Nat} {affinity : Int}
    (hintensity : 1 ≤ intensity ∧ intensity ≤ 5) (hthreads : 0 < threads ∧ threads ≤ 1024)
    (haffinity : -2 ^ 63 ≤ affinity ∧ affinity < 2 ^ 63) :
    ofJSON (ofMask intensity threads affinity).toJSON = ofMask intensity threads affinity := by
  rw [toJSON_ofMask hintensity.1 hthreads]
  generalize hmembers : [(bytes "intensity", Json.int intensity.toNat),
    (bytes "threads", .int threads), (bytes "affinity", .int affinity)] = members
  have hvalue : ∀ key value, (key, value) ∈ members → (Json.object members).getValue key = value := by
    intro key value hmem
    refine Json.getValue_of_mem ?_ hmem
    rw [← hmembers]
    show [bytes "intensity", bytes "threads", bytes "affinity"].Nodup
    decide +kernel
  have hread : (Json.object members).getUint (bytes "intensity") 1 = intensity := by
    rw [Json.getUint, hvalue _ (.int intensity.toNat) (by simp [← hmembers]),
      uint?_int intensity.toNat_lt, UInt32.ofNat_toNat, Option.getD_some]
  have hcount : ((Json.object members).getUint (bytes "threads") 0).toNat = threads := by
    rw [Json.getUint, hvalue _ (.int threads) (by simp [← hmembers]), uint?_int (by omega),
      Option.getD_some, UInt32.toNat_ofNat']
    omega
  show ofMask (if (Json.object members).getUint (bytes "intensity") 1 < 1 ∨
        5 < (Json.object members).getUint (bytes "intensity") 1 then 1
      else (Json.object members).getUint (bytes "intensity") 1)
    (min ((Json.object members).getUint (bytes "threads") 0).toNat 1024)
    (getAffinityMask ((Json.object members).getValue (bytes "affinity"))) = _
  have hrange : ¬ (intensity < 1 ∨ 5 < intensity) :=
    not_or.mpr ⟨UInt32.not_lt.mpr hintensity.1, UInt32.not_lt.mpr hintensity.2⟩
  rw [hread, hcount, hvalue _ (.int affinity) (by simp [← hmembers]), if_neg hrange,
    min_eq_left hthreads.2, getAffinityMask_int haffinity]

/-- Whatever was read of JSON is read again as it was. -/
theorem ofJSON_toJSON {value : Json} (h : (ofJSON value).isEmpty = false) :
    ofJSON (ofJSON value).toJSON = ofJSON value := by
  cases value with
  | array elements =>
      refine ofJSON_ofList fun t ht => ?_
      obtain ⟨hmem, hvalid⟩ := List.mem_filter.mp ht
      obtain ⟨element, -, rfl⟩ := List.mem_map.mp hmem
      exact ⟨hvalid, CpuThread.int32_ofJSON element⟩
  | object members =>
      have hthreads : 0 < min ((Json.object members).getUint (bytes "threads") 0).toNat 1024 := by
        rw [Nat.pos_iff_ne_zero]
        intro hzero
        have hempty : (ofJSON (.object members)).isEmpty = true := by
          unfold ofJSON isEmpty ofMask
          dsimp only
          rw [hzero]
          rfl
        rw [h] at hempty
        contradiction
      refine ofJSON_ofMask ?_ ⟨hthreads, Nat.min_le_right _ _⟩ (getAffinityMask_range _)
      split
      · decide
      · next hrange =>
        obtain ⟨hlow, hhigh⟩ := not_or.mp hrange
        exact ⟨UInt32.not_lt.mp hlow, UInt32.not_lt.mp hhigh⟩
  | _ => contradiction

end CpuThreads

end XLArig
