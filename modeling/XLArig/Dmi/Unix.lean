import XLArig.Dmi.Structures

/-!
# XLArig.Dmi.Unix

`hw/dmi/DmiReader_unix.cpp`: where `DmiReader::read` finds the table that it decodes.

An entry point is looked for in a file of sysfs, at the address that EFI tells, and in the memory
from `0xF0000` on.  What counts is the table that is handed to `decode`, and its version.
-/

namespace XLArig

namespace Dmi

/-! ## Files and memory -/

/-- The machine, as far as it is looked at. -/
structure Host where
  /-- `kSysEntryFile`. -/
  entry : Option (List UInt8)
  /-- `kSysTableFile`. -/
  table : Option (List UInt8)
  /-- What `address_from_efi` returns. -/
  efi : Int
  /-- The physical memory, and whether `kMemDevice` can be opened. -/
  memory : List UInt8
  readable : Bool
  /-- The program has been built for a processor of the x86-64 family. -/
  x86 : Bool

/-- `devmem`. -/
inductive Device
  | memDevice
  | sysTableFile
  deriving DecidableEq, Repr

def Host.file (h : Host) : Device → Option (List UInt8)
  | .memDevice => if h.readable then some h.memory else none
  | .sysTableFile => h.table

/-- `read_file`. -/
def readFile (base maxLen : Nat) (file : Option (List UInt8)) : Option (List UInt8) :=
  match file with
  | none => none
  | some f => if f.length ≤ base then none else some ((f.drop base).take maxLen)

/-- `mem_chunk`. -/
def memChunk (base : Int) (len : Nat) (file : Option (List UInt8)) : Option (List UInt8) :=
  match file with
  | none => none
  | some f =>
      if 0 ≤ base ∧ base + len ≤ f.length then some ((f.drop base.toNat).take len) else none

/-! ## Entry points -/

def checksum (buf : List UInt8) (len : Nat) : Bool := (buf.take len).sum == 0

/-- `dmi_table`; the flag is `FLAG_NO_FILE_OFFSET`. -/
def dmiTable (h : Host) (base : Int) (len : Nat) (devmem : Device) (noFileOffset : Bool) :
    Option (List UInt8) :=
  if noFileOffset then readFile 0 len (h.file devmem)
  else memChunk base len (h.file devmem)

/-- What is handed to `decode`, with `m_version`; `m_size` is the length of the table. -/
structure Found where
  table : List UInt8
  version : Nat
  deriving DecidableEq, Repr

/-- A 64-bit number as an `off_t`. -/
def offT (n : Nat) : Int := if n < 2 ^ 63 then n else (n : Int) - 2 ^ 64

def smbios3Decode (h : Host) (buf : List UInt8) (devmem : Device) (noFileOffset : Bool) :
    Option Found :=
  if 0x20 < byteAt buf 0x06 ∨ checksum buf (byteAt buf 0x06).toNat = false then none
  else
    let version := ((byteAt buf 0x07).toNat <<< 16) + ((byteAt buf 0x08).toNat <<< 8) +
      (byteAt buf 0x09).toNat
    let size := (dwordAt buf 0x0C).toNat
    let offset := (dwordAt buf 0x14).toNat * 2 ^ 32 + (dwordAt buf 0x10).toNat
    (dmiTable h (offT offset) size devmem noFileOffset).map fun table => ⟨table, version⟩

/-- The versions that are known to be wrong. -/
def fixVersion (version : Nat) : Nat :=
  if version = 0x021F ∨ version = 0x0221 then 0x0203
  else if version = 0x0233 then 0x0206
  else version

def smbiosDecode (h : Host) (buf : List UInt8) (devmem : Device) (noFileOffset : Bool) :
    Option Found :=
  if 0x20 < byteAt buf 0x05 ∨ checksum buf (byteAt buf 0x05).toNat = false ∨
      (buf.drop 0x10).take 5 ≠ bytes "_DMI_" ∨ checksum (buf.drop 0x10) 0x0F = false then none
  else
    let version := fixVersion (((byteAt buf 0x06).toNat <<< 8) + (byteAt buf 0x07).toNat)
    let size := (wordAt buf 0x16).toNat
    (dmiTable h (dwordAt buf 0x18).toNat size devmem noFileOffset).map fun table =>
      ⟨table, version <<< 8⟩

def legacyDecode (h : Host) (buf : List UInt8) (devmem : Device) (noFileOffset : Bool) :
    Option Found :=
  if checksum buf 0x0F = false then none
  else
    let version := ((byteAt buf 0x0E &&& 0xF0).toNat <<< 12) +
      ((byteAt buf 0x0E &&& 0x0F).toNat <<< 8)
    let size := (wordAt buf 0x06).toNat
    (dmiTable h (dwordAt buf 0x08).toNat size devmem noFileOffset).map fun table =>
      ⟨table, version⟩

/-! ## The three routes -/

def EFI_NOT_FOUND : Int := -1

def EFI_NO_SMBIOS : Int := -2

/-- `memcmp(buf, text, ...) == 0`. -/
def isAt (text : String) (buf : List UInt8) : Bool := buf.take (bytes text).length == bytes text

/-- The entry point in sysfs. -/
def sysfsRoute (h : Host) : Option Found :=
  match readFile 0 0x20 h.entry with
  | none => none
  | some buf =>
      if 24 ≤ buf.length ∧ isAt "_SM3_" buf then smbios3Decode h buf .sysTableFile true
      else if 31 ≤ buf.length ∧ isAt "_SM_" buf then smbiosDecode h buf .sysTableFile true
      else if 15 ≤ buf.length ∧ isAt "_DMI_" buf then legacyDecode h buf .sysTableFile true
      else none

/-- The entry point that EFI tells; without memory at its address, there is nothing more to do. -/
def efiRoute (h : Host) : Option (Option Found) :=
  match memChunk h.efi 0x20 (h.file .memDevice) with
  | none => none
  | some buf => some (
      if isAt "_SM3_" buf then smbios3Decode h buf .memDevice false
      else if isAt "_SM_" buf then smbiosDecode h buf .sysTableFile false
      else none)

/-- The body of the first loop of the scan. -/
def scan3 (h : Host) (p : List UInt8) : Option Found :=
  if isAt "_SM3_" p then smbios3Decode h p .memDevice false else none

/-- The body of the second loop. -/
def scan2 (h : Host) (fp : Nat) (p : List UInt8) : Option Found :=
  if isAt "_SM_" p ∧ fp ≤ 0xFFE0 then smbios3Decode h p .memDevice false
  else if isAt "_DMI_" p then legacyDecode h p .memDevice false
  else none

/-- `for (off_t fp = 0; fp <= last; fp += 16)`. -/
def scanLoop (body : Nat → Option Found) (last : Nat) : Option Found :=
  (List.range (last / 16 + 1)).findSome? fun i => body (16 * i)

def scanRoute (h : Host) : Option Found :=
  match memChunk 0xF0000 0x10000 (h.file .memDevice) with
  | none => none
  | some buf =>
      (scanLoop (fun fp => scan3 h (buf.drop fp)) 0xFFE0).or
        (scanLoop (fun fp => scan2 h fp (buf.drop fp)) 0xFFF0)

/-- `DmiReader::read`. -/
def read (h : Host) : Option Found :=
  match sysfsRoute h with
  | some found => some found
  | none =>
      if h.efi = EFI_NO_SMBIOS then none
      else if h.efi ≠ EFI_NOT_FOUND then
        match efiRoute h with
        | none => none
        | some (some found) => some found
        | some none => if h.x86 then scanRoute h else none
      else if h.x86 then scanRoute h
      else none

end Dmi

end XLArig
