import XLArig.CString

/-!
# XLArig.Dmi

`hw/dmi`: `DmiTools`, `DmiMemory`, `DmiBoard` and `DmiReader::decode`.

A pointer into the table is the number of a byte.  Every access looks whether that byte is in the
table, and the characters that are replaced are replaced in the table.
-/

namespace XLArig

namespace Dmi

/-- What goes wrong: an access outside of the table, a null pointer where there has to be a string,
and a loop that was given up. -/
inductive Fault
  | outside
  | null
  | endless
  deriving DecidableEq, Repr

/-- What is done to a table. -/
abbrev Run := StateT (List UInt8) (Except Fault)

def peek (i : Nat) : Run UInt8 := fun b =>
  match b[i]? with
  | some c => .ok (c, b)
  | none => .error .outside

def poke (i : Nat) (c : UInt8) : Run Unit := fun b =>
  if i < b.length then .ok ((), b.set i c) else .error .outside

/-! ## DmiTools -/

structure DmiHeader where
  type : UInt8
  length : UInt8
  handle : UInt16
  data : Nat
  deriving DecidableEq, Repr

/-- `dmi_get<uint8_t>`, and `data[offset]`. -/
def dmiGet8 (h : DmiHeader) (offset : Nat) : Run UInt8 := peek (h.data + offset)

/-- `dmi_get<uint16_t>`. -/
def dmiGet16 (h : DmiHeader) (offset : Nat) : Run UInt16 := do
  let lo ← dmiGet8 h offset
  let hi ← dmiGet8 h (offset + 1)
  pure (lo.toUInt16 + (hi.toUInt16 <<< 8))

/-- `dmi_get<uint32_t>`. -/
def dmiGet32 (h : DmiHeader) (offset : Nat) : Run UInt32 := do
  let lo ← dmiGet16 h offset
  let hi ← dmiGet16 h (offset + 2)
  pure (lo.toUInt32 + (hi.toUInt32 <<< 16))

/-- How many bytes there are up to the first zero. -/
def untilZero : List UInt8 → Except Fault Nat
  | [] => .error .outside
  | c :: l => if c = 0 then .ok 0 else (untilZero l).map (· + 1)

def strlen (bp : Nat) : Run Nat := fun b => (untilZero (b.drop bp)).map fun n => (n, b)

/-- `ascii_filter` replaces non-ASCII characters with dots. -/
def asciiFilter (bp : Nat) : Nat → Run Unit
  | 0 => pure ()
  | len + 1 => do
      asciiFilter bp len
      let c ← peek (bp + len)
      if c < 32 ∨ 127 ≤ c then poke (bp + len) 0x2E

/-- The loop of `_dmi_string`. -/
def skipStrings : Nat → Nat → Run Nat
  | s + 2, bp => do
      let c ← peek bp
      if c = 0 then pure bp
      else do
        let n ← strlen bp
        skipStrings (s + 1) (bp + n + 1)
  | _, bp => pure bp

/-- `_dmi_string`. -/
def dmiStringAt (dm : DmiHeader) (s : UInt8) (filter : Bool) : Run (Option Nat) := do
  let bp ← skipStrings s.toNat (dm.data + dm.length.toNat)
  let c ← peek bp
  if c = 0 then pure none
  else do
    if filter then do
      let len ← strlen bp
      asciiFilter bp len
    pure (some bp)

def dmiString (dm : DmiHeader) (offset : Nat) : Run (Option Nat) :=
  if offset < 4 then pure none
  else do
    let s ← dmiGet8 dm offset
    dmiStringAt dm s true

/-- `String(const char *)`. -/
def copy : Option Nat → Run CString
  | none => pure none
  | some bp => do
      let n ← strlen bp
      fun b => .ok (some ((b.drop bp).take n), b)

/-- A `String` that is assigned what `dmi_string` returns. -/
def dmiText (dm : DmiHeader) (offset : Nat) : Run CString := do
  let ptr ← dmiString dm offset
  copy ptr

/-! ## DmiMemory -/

structure DmiMemory where
  bank : CString := none
  id : CString := none
  product : CString := none
  slot : CString := none
  vendor : CString := none
  totalWidth : UInt16 := 0
  voltage : UInt16 := 0
  width : UInt16 := 0
  size : UInt64 := 0
  speed : UInt64 := 0
  formFactor : UInt8 := 0
  rank : UInt8 := 0
  type : UInt8 := 0
  deriving DecidableEq, Repr

def isLetter (c : UInt8) : Bool := (0x41 ≤ c && c ≤ 0x5A) || (0x61 ≤ c && c ≤ 0x7A)

def isDigits (s : List UInt8) : Bool := !s.isEmpty && s.all fun c => 0x30 ≤ c && c ≤ 0x39

/-- `std::regex_match` with `^Channel([A-Z])[-_]DIMM(\d+)$`, ignoring case. -/
def matchSlot (s : List UInt8) : Option (List UInt8 × List UInt8) :=
  match s.drop 7 with
  | x :: sep :: rest =>
      if CString.sameIgnoringCase (s.take 7) (bytes "channel") && isLetter x &&
          (sep == 0x2D || sep == 0x5F) && CString.sameIgnoringCase (rest.take 4) (bytes "dimm") &&
          isDigits (rest.drop 4)
      then some ([x], rest.drop 4)
      else none
  | _ => none

/-- `std::regex_search` with `CHANNEL ([A-Z])$`. -/
def searchBank (s : List UInt8) : Option (List UInt8) :=
  match s.drop (s.length - 9) with
  | [c0, c1, c2, c3, c4, c5, c6, c7, x] =>
      if [c0, c1, c2, c3, c4, c5, c6, c7] == bytes "CHANNEL " && (0x41 ≤ x && x ≤ 0x5A)
      then some [x]
      else none
  | _ => none

/-- `std::regex_match` with `^DIMM (\d+)$`. -/
def matchDimm (s : List UInt8) : Option (List UInt8) :=
  if s.take 5 == bytes "DIMM " && isDigits (s.drop 5) then some (s.drop 5) else none

/-- `fmt::format(kIdFormat, ...)`. -/
def formatId (channel dimm : List UInt8) : List UInt8 := bytes "DIMM_" ++ channel ++ dimm

namespace DmiMemory

/-- The patterns of `setId`, on the strings of its pointers. -/
def idOf (slot bank : CString) : Except Fault CString :=
  match slot with
  | none => .error .null
  | some s =>
      match matchSlot s with
      | some (x, n) => .ok (some (formatId x n))
      | none =>
          match bank with
          | none => .error .null
          | some k => .ok (
              match searchBank k, matchDimm s with
              | some x, some n => some (formatId x n)
              | _, _ => none)

def setId (m : DmiMemory) (slot bank : Option Nat) : Run DmiMemory := do
  let slot ← copy slot
  let bank ← copy bank
  let id ← (idOf slot bank : Except Fault CString)
  pure { m with slot := slot, bank := bank, id := id }

/-- `setId(dmi_string(h, 0x10), dmi_string(h, 0x11))`. -/
def readId (h : DmiHeader) (m : DmiMemory) : Run DmiMemory := do
  let slot ← dmiString h 0x10
  let bank ← dmiString h 0x11
  m.setId slot bank

/-- `dmi_memory_device_width`. -/
def deviceWidth (code : UInt16) : UInt16 := if code = 0xFFFF ∨ code = 0 then 0 else code

/-- `dmi_memory_device_speed`. -/
def deviceSpeed (code1 : UInt16) (code2 : UInt32) : UInt64 :=
  if code1 = 0xFFFF then code2.toUInt64 else code1.toUInt64

/-- The size in the extended field. -/
def extendedSize (size : UInt32) : UInt64 := (size &&& 0x7FFFFFFF).toUInt64 * 1024 * 1024

/-- The size in the field of 16 bits. -/
def shortSize (size : UInt16) : UInt64 :=
  1024 * (size &&& 0x7FFF).toUInt64 * (if size &&& 0x8000 ≠ 0 then 1 else 1024)

/-- The size of the module. -/
def readSize (h : DmiHeader) : Run UInt64 := do
  let size ← dmiGet16 h 0x0C
  if 0x20 ≤ h.length ∧ size = 0x7FFF then do
    let size ← dmiGet32 h 0x1C
    pure (extendedSize size)
  else if size ≠ 0 then pure (shortSize size)
  else pure 0

/-- An extended speed, in the structures that are long enough. -/
def readExtended (h : DmiHeader) (extended : Nat) : Run UInt32 :=
  if 0x5C ≤ h.length then dmiGet32 h extended else pure 0

/-- A speed, whose code `0xFFFF` refers to an extended field. -/
def readSpeed (h : DmiHeader) (offset extended : Nat) : Run UInt64 := do
  let code1 ← dmiGet16 h offset
  let code2 ← readExtended h extended
  pure (deviceSpeed code1 code2 * 1000000)

/-- The fields from `0x1B` on. -/
def readRest (h : DmiHeader) (m : DmiMemory) : Run DmiMemory :=
  if h.length < 0x1C then pure m
  else do
    let rank ← dmiGet8 h 0x1B
    let m := { m with rank := rank &&& 0x0F }
    if h.length < 0x22 then pure m
    else do
      let configuredSpeed ← readSpeed h 0x20 0x58
      let m := { m with speed := if configuredSpeed ≠ 0 then configuredSpeed else m.speed }
      if h.length < 0x28 then pure m
      else do
        let voltage ← dmiGet16 h 0x26
        pure { m with voltage := voltage }

/-- `DmiMemory::DmiMemory`. -/
def decode (h : DmiHeader) : Run DmiMemory :=
  if h.length < 0x15 then pure {}
  else do
    let totalWidth ← dmiGet16 h 0x08
    let width ← dmiGet16 h 0x0A
    let size ← readSize h
    let m : DmiMemory :=
      { totalWidth := deviceWidth totalWidth, width := deviceWidth width, size := size }
    let m ← readId h m
    let formFactor ← dmiGet8 h 0x0E
    let type ← dmiGet8 h 0x12
    let m := { m with formFactor := formFactor, type := type }
    if m.size = 0 ∨ h.length < 0x17 then pure m
    else do
      let speed ← readSpeed h 0x15 0x54
      let m := { m with speed := speed }
      if h.length < 0x1B then pure m
      else do
        let vendor ← dmiText h 0x17
        let product ← dmiText h 0x1A
        readRest h { m with vendor := vendor, product := product }

end DmiMemory

/-! ## DmiBoard -/

structure DmiBoard where
  product : CString := none
  vendor : CString := none
  deriving DecidableEq, Repr

/-- `DmiBoard::decode`. -/
def DmiBoard.decode (board : DmiBoard) (h : DmiHeader) : Run DmiBoard :=
  if h.length < 0x08 then pure board
  else do
    let vendor ← dmiText h 0x04
    let product ← dmiText h 0x05
    pure { vendor := vendor, product := product }

/-! ## DmiReader -/

structure DmiReader where
  board : DmiBoard := {}
  system : DmiBoard := {}
  memory : List DmiMemory := []
  deriving DecidableEq, Repr

namespace DmiReader

/-- `static_cast<uint32_t>`. -/
def uint32 (n : Nat) : Nat := n % 2 ^ 32

/-- `dmi_get_header`. -/
def dmiGetHeader (data : Nat) : Run DmiHeader := do
  let type ← peek data
  let length ← peek (data + 1)
  let handle ← dmiGet16 ⟨type, length, 0, data⟩ 2
  pure ⟨type, length, handle, data⟩

/-- The search for two zero bytes from the bytes at `next` on. -/
def findZeros (size : Nat) : Nat → List UInt8 → Except Fault Nat
  | next, [] => if uint32 (next + 1) < size then .error .outside else .ok next
  | next, c :: l =>
      if uint32 (next + 1) < size then
        if c ≠ 0 then findZeros size (next + 1) l
        else
          match l with
          | [] => .error .outside
          | d :: _ => if d ≠ 0 then findZeros size (next + 1) l else .ok next
      else .ok next

/-- What macOS does instead of one step of two bytes: as many as there are pairs of zeros. -/
def skipZeros (size : Nat) : Nat → List UInt8 → Except Fault Nat
  | next, c :: d :: l =>
      if next + 1 < size ∧ c = 0 ∧ d = 0 then skipZeros size (next + 2) l else .ok next
  | next, _ => if next + 1 < size then .error .outside else .ok next

/-- Where the next structure begins. -/
def findNext (apple : Bool) (size next : Nat) : Run Nat := fun b => do
  let next ← findZeros size next (b.drop next)
  let next ← if apple then skipZeros size next (b.drop next) else pure (next + 2)
  pure (next, b)

/-- The `switch` of `decode`. -/
def decodeStructure (r : DmiReader) (h : DmiHeader) : Run DmiReader :=
  match h.type with
  | 1 => do
      let system ← r.system.decode h
      pure { r with system := system }
  | 2 => do
      let board ← r.board.decode h
      pure { r with board := board }
  | 17 => do
      let m ← DmiMemory.decode h
      pure { r with memory := r.memory ++ [m] }
  | _ => pure r

/-- The loop of `decode`, which is given up after some turns. -/
def decodeLoop (apple : Bool) (size : Nat) : Nat → Nat → DmiReader → Run DmiReader
  | 0, _, _ => throw .endless
  | n + 1, data, r =>
      if data + 4 ≤ size then do
        let h ← dmiGetHeader data
        if h.length < 4 ∨ h.type = 127 then pure r
        else do
          let next ← findNext apple size (data + h.length.toNat)
          if size < uint32 next then pure r
          else do
            let r ← r.decodeStructure h
            decodeLoop apple size n next r
      else pure r

/-- `DmiReader::decode` of a table of `m_size` bytes, if there is one. -/
def decode (apple : Bool) (r : DmiReader) : Option (List UInt8) → Except Fault (Bool × DmiReader)
  | none => .ok (false, r)
  | some buf => do
      let (r, _) ← decodeLoop apple buf.length (buf.length + 1) 0 r buf
      pure (true, r)

end DmiReader

end Dmi

end XLArig
