import XLArig.Dmi.Unix

/-!
# XLArig.Dmi.Routes

Whether the table of an entry point depends on the way that led to the entry point.

An entry point is valid on its own, and then stands for the same table wherever it is met, with
whatever bytes after it.  Only `_SM_` is not decoded as such by EFI and by the scan, and sysfs
has no table of zero bytes.
-/

namespace XLArig

namespace Dmi

/-! ## Valid entry points -/

inductive Kind
  | sm3
  | sm
  | dmi
  deriving DecidableEq, Repr

namespace Kind

/-- The address of the table. -/
def address (buf : List UInt8) : Kind → Nat
  | .sm3 => (dwordAt buf 0x14).toNat * 2 ^ 32 + (dwordAt buf 0x10).toNat
  | .sm => (dwordAt buf 0x18).toNat
  | .dmi => (dwordAt buf 0x08).toNat

/-- The size of the table. -/
def size (buf : List UInt8) : Kind → Nat
  | .sm3 => (dwordAt buf 0x0C).toNat
  | .sm => (wordAt buf 0x16).toNat
  | .dmi => (wordAt buf 0x06).toNat

/-- What `buf` has to be: an anchor, its own length and a checksum. -/
def Valid (buf : List UInt8) : Kind → Prop
  | .sm3 => buf.take 5 = bytes "_SM3_" ∧ 24 ≤ buf.length ∧ buf.length ≤ 0x20 ∧
      (byteAt buf 0x06).toNat = buf.length ∧ buf.sum = 0
  | .sm => buf.take 4 = bytes "_SM_" ∧ 31 ≤ buf.length ∧ buf.length ≤ 0x20 ∧
      (byteAt buf 0x05).toNat = buf.length ∧ buf.sum = 0 ∧
      (buf.drop 0x10).take 5 = bytes "_DMI_" ∧ ((buf.drop 0x10).take 0x0F).sum = 0
  | .dmi => buf.take 5 = bytes "_DMI_" ∧ buf.length = 15 ∧ buf.sum = 0

end Kind

/-- A valid entry point, whose table lies where an `off_t` can point at. -/
structure EntryPoint where
  kind : Kind
  buf : List UInt8
  valid : kind.Valid buf
  fits : kind.address buf + kind.size buf ≤ 2 ^ 63

namespace EntryPoint

variable (e : EntryPoint)

def address : Nat := e.kind.address e.buf

def size : Nat := e.kind.size e.buf

/-- The table that the entry point describes is in the memory, and in sysfs if that has one. -/
structure In (h : Host) (table : List UInt8) : Prop where
  memory : memChunk e.address e.size (some h.memory) = some table
  sysfs : ∀ f ∈ h.table, f = table

/-- Where the scan meets the entry point, with nothing that it takes for one before. -/
def First (h : Host) (w : List UInt8) (i : Nat) : Prop :=
  e.buf <+: w.drop (16 * i) ∧
  match e.kind with
  | .sm3 => 16 * i ≤ 0xFFE0 ∧ ∀ j < i, scan3 h (w.drop (16 * j)) = none
  | .sm => 16 * i ≤ 0xFFE0 ∧ (∀ j, 16 * j ≤ 0xFFE0 → scan3 h (w.drop (16 * j)) = none) ∧
      ∀ j < i, scan2 h (16 * j) (w.drop (16 * j)) = none
  | .dmi => 16 * i ≤ 0xFFF0 ∧ (∀ j, 16 * j ≤ 0xFFE0 → scan3 h (w.drop (16 * j)) = none) ∧
      ∀ j < i, scan2 h (16 * j) (w.drop (16 * j)) = none

/-- A route reaches the entry point, and none before it has found a table. -/
inductive Reached (h : Host) : Prop
  | sysfs : h.entry = some e.buf → h.table.isSome → Reached h
  | efi (w : List UInt8) : sysfsRoute h = none → e.kind ≠ .dmi → 0 ≤ h.efi →
      memChunk h.efi 0x20 (h.file .memDevice) = some w → e.buf <+: w → Reached h
  | scan (w : List UInt8) (i : Nat) : sysfsRoute h = none →
      h.efi = EFI_NOT_FOUND ∨ (0 ≤ h.efi ∧ efiRoute h = some none) → h.x86 = true →
      memChunk 0xF0000 0x10000 (h.file .memDevice) = some w → e.First h w i → Reached h

/-- On every route, the same table is decoded, with the same version. -/
def Same : Prop :=
  ∃ version, ∀ h table, e.In h table → e.Reached h → read h = some ⟨table, version⟩

end EntryPoint

/-! ## The bytes at the front -/

section Front

variable {a p : List UInt8}

theorem byteAt_front (hp : a <+: p) {i : Nat} (hi : i < a.length) :
    byteAt p i = byteAt a i := by
  obtain ⟨t, rfl⟩ := hp
  simp [byteAt, List.getElem?_append_left hi]

theorem wordAt_front (hp : a <+: p) {i : Nat} (hi : i + 1 < a.length) :
    wordAt p i = wordAt a i := by
  simp only [wordAt, byteAt_front hp hi, byteAt_front hp (show i < a.length by omega)]

theorem dwordAt_front (hp : a <+: p) {i : Nat} (hi : i + 3 < a.length) :
    dwordAt p i = dwordAt a i := by
  simp only [dwordAt, wordAt_front hp (show i + 2 + 1 < a.length by omega),
    wordAt_front hp (show i + 1 < a.length by omega)]

theorem take_front (hp : a <+: p) {n : Nat} (hn : n ≤ a.length) : p.take n = a.take n := by
  obtain ⟨t, rfl⟩ := hp
  exact List.take_append_of_le_length hn

theorem checksum_front (hp : a <+: p) (hsum : a.sum = 0) : checksum p a.length = true := by
  simp [checksum, take_front hp Nat.le.refl, hsum]

theorem isAt_of_take {text : String} {n : Nat} {front : List UInt8} (h : p.take n = front)
    (hn : (bytes text).length ≤ n) : isAt text p = isAt text front := by
  rw [← h]
  simp [isAt, List.take_take, Nat.min_eq_left hn]

theorem take_of_isAt {text : String} {n : Nat} (h : isAt text p = true)
    (hn : n ≤ (bytes text).length) : p.take n = (bytes text).take n := by
  rw [← eq_of_beq h, List.take_take, Nat.min_eq_left hn]

end Front

/-! ## Decoding an entry point -/

theorem offT_of_lt {n : Nat} (h : n < 2 ^ 63) : offT n = n := if_pos h

namespace Kind

variable {buf p : List UInt8}

/-- `m_version`. -/
def version (buf : List UInt8) : Kind → Nat
  | .sm3 => ((byteAt buf 0x07).toNat <<< 16) + ((byteAt buf 0x08).toNat <<< 8) +
      (byteAt buf 0x09).toNat
  | .sm => fixVersion (((byteAt buf 0x06).toNat <<< 8) + (byteAt buf 0x07).toNat) <<< 8
  | .dmi => ((byteAt buf 0x0E &&& 0xF0).toNat <<< 12) + ((byteAt buf 0x0E &&& 0x0F).toNat <<< 8)

/-- What is made of an entry point that is accepted. -/
def found (h : Host) (buf : List UInt8) (devmem : Device) (noFileOffset : Bool) (kind : Kind) :
    Option Found :=
  (dmiTable h (kind.address buf) (kind.size buf) devmem noFileOffset).map
    fun table => ⟨table, kind.version buf⟩

/-- The anchors tell the kinds apart. -/
theorem isAt_of_valid {kind : Kind} (valid : kind.Valid buf) (hp : buf <+: p) :
    isAt "_SM3_" p = (kind == sm3) ∧ isAt "_SM_" p = (kind == sm) ∧
      isAt "_DMI_" p = (kind == dmi) := by
  cases kind with
  | sm3 =>
      obtain ⟨hanchor, hlen, -⟩ := valid
      have h5 : p.take 5 = bytes "_SM3_" := by rw [take_front hp (by omega), hanchor]
      refine ⟨?_, ?_, ?_⟩ <;> rw [isAt_of_take h5 (by decide)] <;> decide
  | sm =>
      obtain ⟨hanchor, hlen, -⟩ := valid
      have h4 : p.take 4 = bytes "_SM_" := by rw [take_front hp (by omega), hanchor]
      have hnot : ∀ text, 4 ≤ (bytes text).length → (bytes text).take 4 ≠ bytes "_SM_" →
          isAt text p = false := fun text hle hne =>
        Bool.eq_false_iff.mpr fun his => hne (by rw [← take_of_isAt his hle, h4])
      exact ⟨hnot _ (by decide) (by decide), (isAt_of_take h4 (by decide)).trans (by decide),
        hnot _ (by decide) (by decide)⟩
  | dmi =>
      obtain ⟨hanchor, hlen, -⟩ := valid
      have h5 : p.take 5 = bytes "_DMI_" := by rw [take_front hp (by omega), hanchor]
      refine ⟨?_, ?_, ?_⟩ <;> rw [isAt_of_take h5 (by decide)] <;> decide

/-- The length that an entry point tells is not refused, and neither is its checksum. -/
theorem accepts {n : Nat} (hp : buf <+: p) (hn : n < buf.length)
    (hlen : (byteAt buf n).toNat = buf.length) (hle : buf.length ≤ 0x20) (hsum : buf.sum = 0) :
    ¬0x20 < byteAt p n ∧ checksum p (byteAt p n).toNat = true := by
  rw [byteAt_front hp hn, UInt8.lt_iff_toNat_lt, hlen]
  exact ⟨Nat.not_lt.mpr hle, checksum_front hp hsum⟩

theorem smbios3Decode_of_valid (valid : sm3.Valid buf) (hp : buf <+: p)
    (hoff : sm3.address buf < 2 ^ 63) (h : Host) (devmem : Device) (noFileOffset : Bool) :
    smbios3Decode h p devmem noFileOffset = sm3.found h buf devmem noFileOffset := by
  obtain ⟨-, hlen, hle, hown, hsum⟩ := valid
  obtain ⟨hshort, hcheck⟩ := accepts hp (show 6 < buf.length by omega) hown hle hsum
  have hoff := offT_of_lt hoff
  simp only [address] at hoff
  simp only [smbios3Decode, hshort, hcheck, Bool.true_eq_false, or_self, if_false,
    byteAt_front hp (show 7 < buf.length by omega),
    byteAt_front hp (show 8 < buf.length by omega),
    byteAt_front hp (show 9 < buf.length by omega),
    dwordAt_front hp (show 0x0C + 3 < buf.length by omega),
    dwordAt_front hp (show 0x14 + 3 < buf.length by omega),
    dwordAt_front hp (show 0x10 + 3 < buf.length by omega), hoff, found, address, size,
    version]

theorem smbiosDecode_of_valid (valid : sm.Valid buf) (hp : buf <+: p) (h : Host)
    (devmem : Device) (noFileOffset : Bool) :
    smbiosDecode h p devmem noFileOffset = sm.found h buf devmem noFileOffset := by
  obtain ⟨-, hlen, hle, hown, hsum, hanchor, hpart⟩ := valid
  obtain ⟨hshort, hcheck⟩ := accepts hp (show 5 < buf.length by omega) hown hle hsum
  have hdrop : buf.drop 0x10 <+: p.drop 0x10 := hp.drop 0x10
  have hpart' : checksum (p.drop 0x10) 0x0F = true := by
    rw [checksum, take_front hdrop (by rw [List.length_drop]; omega), hpart]
    rfl
  have hanchor' : (p.drop 0x10).take 5 = bytes "_DMI_" := by
    rw [take_front hdrop (by rw [List.length_drop]; omega), hanchor]
  simp only [smbiosDecode, hshort, hcheck, hanchor', hpart', ne_eq, not_true, Bool.true_eq_false,
    or_self, if_false, byteAt_front hp (show 6 < buf.length by omega),
    byteAt_front hp (show 7 < buf.length by omega),
    wordAt_front hp (show 0x16 + 1 < buf.length by omega),
    dwordAt_front hp (show 0x18 + 3 < buf.length by omega), found, address, size, version]

theorem legacyDecode_of_valid (valid : dmi.Valid buf) (hp : buf <+: p) (h : Host)
    (devmem : Device) (noFileOffset : Bool) :
    legacyDecode h p devmem noFileOffset = dmi.found h buf devmem noFileOffset := by
  obtain ⟨-, hlen, hsum⟩ := valid
  have hcheck := checksum_front hp hsum
  rw [hlen] at hcheck
  simp only [legacyDecode, hcheck, Bool.true_eq_false, if_false,
    byteAt_front hp (show 0x0E < buf.length by omega),
    wordAt_front hp (show 0x06 + 1 < buf.length by omega),
    dwordAt_front hp (show 0x08 + 3 < buf.length by omega), found, address, size, version]

end Kind

/-! ## The tables -/

theorem length_memChunk {base : Int} {len : Nat} {file : Option (List UInt8)} {w : List UInt8}
    (hw : memChunk base len file = some w) : w.length = len := by
  unfold memChunk at hw
  split at hw
  · contradiction
  · next f =>
    split at hw
    · next hin =>
      rw [Option.some.injEq] at hw
      rw [← hw, List.length_take, List.length_drop]
      omega
    · contradiction

theorem file_memDevice {h : Host} {base : Int} {len : Nat} {w : List UInt8}
    (hw : memChunk base len (h.file .memDevice) = some w) :
    h.file .memDevice = some h.memory := by
  cases hr : h.readable with
  | true => simp [Host.file, hr]
  | false => simp [Host.file, hr, memChunk] at hw

/-- A file that is not longer than what is asked for. -/
theorem readFile_whole {f : List UInt8} {n : Nat} (h0 : f ≠ []) (hn : f.length ≤ n) :
    readFile 0 n (some f) = some f := by
  have hpos : ¬f.length ≤ 0 := by simpa using h0
  simp only [readFile, hpos, if_false, List.drop_zero, List.take_of_length_le hn]

/-! ## The routes -/

namespace EntryPoint

variable {e : EntryPoint} {h : Host} {table w : List UInt8}

theorem length_buf (e : EntryPoint) : 15 ≤ e.buf.length ∧ e.buf.length ≤ 0x20 := by
  obtain ⟨kind, buf, valid, fits⟩ := e
  cases kind <;> simp only [Kind.Valid] at valid <;> grind

theorem address_lt (hsize : e.size ≠ 0) : e.address < 2 ^ 63 := by
  have := e.fits
  simp only [address, size] at *
  omega

/-- The table in sysfs. -/
theorem In.found_sysTableFile (hin : e.In h table) (hsize : e.size ≠ 0)
    (hsome : h.table.isSome) :
    e.kind.found h e.buf .sysTableFile true = some ⟨table, e.kind.version e.buf⟩ := by
  obtain ⟨f, hf⟩ := Option.isSome_iff_exists.mp hsome
  obtain rfl := hin.sysfs f hf
  have hlen := length_memChunk hin.memory
  have hread : readFile 0 (e.kind.size e.buf) (some f) = some f :=
    readFile_whole (List.length_pos_iff.mp (by omega)) (Nat.le_of_eq hlen)
  simp [Kind.found, dmiTable, Host.file, hf, hread]

/-- The table in the memory. -/
theorem In.found_memDevice (hin : e.In h table) (hfile : h.file .memDevice = some h.memory) :
    e.kind.found h e.buf .memDevice false = some ⟨table, e.kind.version e.buf⟩ := by
  have hmem : memChunk (e.kind.address e.buf) (e.kind.size e.buf) (some h.memory) = some table :=
    hin.memory
  simp [Kind.found, dmiTable, hfile, hmem]

/-- Sysfs tells the three kinds apart. -/
theorem sysfsRoute_of_entry (hentry : h.entry = some e.buf) (hsize : e.size ≠ 0) :
    sysfsRoute h = e.kind.found h e.buf .sysTableFile true := by
  have hlt := address_lt hsize
  obtain ⟨hpos, hle⟩ := e.length_buf
  have hread : readFile 0 0x20 h.entry = some e.buf := by
    rw [hentry]
    exact readFile_whole (List.length_pos_iff.mp (by omega)) hle
  obtain ⟨his3, his, hisd⟩ := Kind.isAt_of_valid e.valid List.prefix_rfl
  obtain ⟨kind, buf, valid, fits⟩ := e
  simp only [sysfsRoute, hread, his3, his, hisd]
  cases kind with
  | sm3 =>
      have hlen : 24 ≤ buf.length := valid.2.1
      simpa [hlen] using Kind.smbios3Decode_of_valid valid List.prefix_rfl hlt ..
  | sm =>
      have hlen : 31 ≤ buf.length := valid.2.1
      simpa [hlen] using Kind.smbiosDecode_of_valid valid List.prefix_rfl ..
  | dmi =>
      have hlen : 15 ≤ buf.length := Nat.le_of_eq valid.2.1.symm
      simpa [hlen] using Kind.legacyDecode_of_valid valid List.prefix_rfl ..

/-- EFI does for the kind of 64 bits. -/
theorem efiRoute_of_front (hkind : e.kind = .sm3) (hsize : e.size ≠ 0)
    (hw : memChunk h.efi 0x20 (h.file .memDevice) = some w) (hp : e.buf <+: w) :
    efiRoute h = some (e.kind.found h e.buf .memDevice false) := by
  have hlt := address_lt hsize
  obtain ⟨his3, -⟩ := Kind.isAt_of_valid e.valid hp
  obtain ⟨kind, buf, valid, fits⟩ := e
  obtain rfl : kind = .sm3 := hkind
  simp [efiRoute, hw, his3, Kind.smbios3Decode_of_valid valid hp hlt]

theorem scanLoop_of_first {body : Nat → Option Found} {last i : Nat} {found : Found}
    (hi : 16 * i ≤ last) (hbefore : ∀ j < i, body (16 * j) = none)
    (hat : body (16 * i) = some found) : scanLoop body last = some found := by
  obtain ⟨k, hk⟩ : ∃ k, last / 16 + 1 = i + (k + 1) := ⟨last / 16 - i, by omega⟩
  have hnone : (List.range i).findSome? (fun j => body (16 * j)) = none :=
    List.findSome?_eq_none_iff.mpr fun j hj => hbefore j (List.mem_range.mp hj)
  simp [scanLoop, hk, List.range_add, List.findSome?_append, hnone, List.range_succ_eq_map, hat]

theorem scanLoop_none {body : Nat → Option Found} {last : Nat}
    (hnone : ∀ j, 16 * j ≤ last → body (16 * j) = none) : scanLoop body last = none :=
  List.findSome?_eq_none_iff.mpr fun j hj => hnone j (by rw [List.mem_range] at hj; omega)

/-- The scan does for the kinds that are not of 32 bits. -/
theorem scanRoute_of_first (hkind : e.kind ≠ .sm) (hsize : e.size ≠ 0)
    (hw : memChunk 0xF0000 0x10000 (h.file .memDevice) = some w) {i : Nat}
    (hfirst : e.First h w i) {f : Found}
    (hf : e.kind.found h e.buf .memDevice false = some f) : scanRoute h = some f := by
  have hlt := address_lt hsize
  obtain ⟨hp, hbefore⟩ := hfirst
  obtain ⟨his3, his, hisd⟩ := Kind.isAt_of_valid e.valid hp
  obtain ⟨kind, buf, valid, fits⟩ := e
  simp only [scanRoute, hw]
  cases kind with
  | sm3 =>
      obtain ⟨hi, hnone⟩ := hbefore
      have hat : scan3 h (w.drop (16 * i)) = some f := by
        simpa [scan3, his3, Kind.smbios3Decode_of_valid valid hp hlt] using hf
      have hloop : scanLoop (fun fp => scan3 h (w.drop fp)) 0xFFE0 = some f :=
        scanLoop_of_first hi hnone hat
      rw [hloop, Option.some_or]
  | sm => exact absurd rfl hkind
  | dmi =>
      obtain ⟨hi, hnone3, hnone⟩ := hbefore
      have hat : scan2 h (16 * i) (w.drop (16 * i)) = some f := by
        simpa [scan2, his, hisd, Kind.legacyDecode_of_valid valid hp] using hf
      have hloop3 : scanLoop (fun fp => scan3 h (w.drop fp)) 0xFFE0 = none := scanLoop_none hnone3
      have hloop : scanLoop (fun fp => scan2 h fp (w.drop fp)) 0xFFF0 = some f :=
        scanLoop_of_first hi hnone hat
      rw [hloop3, Option.none_or, hloop]

theorem read_of_sysfs {f : Found} (hroute : sysfsRoute h = some f) : read h = some f := by
  simp [read, hroute]

theorem read_of_efi {f : Found} (hsysfs : sysfsRoute h = none) (hefi : 0 ≤ h.efi)
    (hroute : efiRoute h = some (some f)) : read h = some f := by
  have h1 : h.efi ≠ EFI_NO_SMBIOS := by simp only [EFI_NO_SMBIOS]; omega
  have h2 : h.efi ≠ EFI_NOT_FOUND := by simp only [EFI_NOT_FOUND]; omega
  simp only [read, hsysfs, h1, h2, if_false, ne_eq, not_false_eq_true, if_true, hroute]

theorem read_of_scan {f : Found} (hsysfs : sysfsRoute h = none)
    (hefi : h.efi = EFI_NOT_FOUND ∨ (0 ≤ h.efi ∧ efiRoute h = some none)) (hx86 : h.x86 = true)
    (hroute : scanRoute h = some f) : read h = some f := by
  obtain hefi | ⟨hefi, hnone⟩ := hefi
  · simp [read, hsysfs, hefi, hx86, hroute, EFI_NOT_FOUND, EFI_NO_SMBIOS]
  · have h1 : h.efi ≠ EFI_NO_SMBIOS := by simp only [EFI_NO_SMBIOS]; omega
    have h2 : h.efi ≠ EFI_NOT_FOUND := by simp only [EFI_NOT_FOUND]; omega
    simp only [read, hsysfs, h1, h2, if_false, ne_eq, not_false_eq_true, if_true, hnone, hx86,
      hroute]

/-- Every route leads to the table where there is no part that it mistakes. -/
theorem read_of_reached (hkind : e.kind ≠ .sm) (hsize : e.size ≠ 0) (hin : e.In h table)
    (hreached : e.Reached h) : read h = some ⟨table, e.kind.version e.buf⟩ := by
  cases hreached with
  | sysfs hentry hsome =>
      exact read_of_sysfs
        ((sysfsRoute_of_entry hentry hsize).trans (hin.found_sysTableFile hsize hsome))
  | efi w hsysfs hdmi hefi hw hp =>
      have hsm3 : e.kind = .sm3 := by cases hk : e.kind <;> simp_all
      have hfound := hin.found_memDevice (file_memDevice hw)
      exact read_of_efi hsysfs hefi (by rw [efiRoute_of_front hsm3 hsize hw hp, hfound])
  | scan w i hsysfs hefi hx86 hw hfirst =>
      have hfound := hin.found_memDevice (file_memDevice hw)
      exact read_of_scan hsysfs hefi hx86 (scanRoute_of_first hkind hsize hw hfirst hfound)

/-! ## Where a route fails -/

/-- A machine where EFI tells an entry point at the address zero. -/
def efiHost (e : EntryPoint) : Host where
  entry := none
  table := none
  efi := 0
  memory := e.buf ++ List.replicate (0x20 + e.address + e.size) 0
  readable := true
  x86 := false

/-- What is read of the entry point there. -/
theorem memChunk_efiHost (e : EntryPoint) :
    ∃ w, memChunk e.efiHost.efi 0x20 (e.efiHost.file .memDevice) = some w ∧ e.buf <+: w := by
  refine ⟨e.efiHost.memory.take 0x20, ?_, ?_⟩
  · simp [memChunk, Host.file, efiHost]
    omega
  · rw [List.prefix_take_iff]
    exact ⟨List.prefix_append .., e.length_buf.2⟩

/-- EFI takes the address of a table in the memory for one in sysfs. -/
theorem read_efiHost (hkind : e.kind = .sm) : read e.efiHost = none := by
  obtain ⟨w, hw, hp⟩ := e.memChunk_efiHost
  obtain ⟨his3, his, -⟩ := Kind.isAt_of_valid e.valid hp
  rw [hkind] at his3 his
  have hdecode : smbiosDecode e.efiHost w .sysTableFile false = none := by
    simp [smbiosDecode, dmiTable, memChunk, Host.file, efiHost]
  have hefi : efiRoute e.efiHost = some none := by simp [efiRoute, hw, his3, his, hdecode]
  have hsysfs : sysfsRoute e.efiHost = none := rfl
  have hx86 : e.efiHost.x86 = false := rfl
  simp [read, hsysfs, hefi, hx86]

theorem reached_efiHost (hkind : e.kind ≠ .dmi) : e.Reached e.efiHost := by
  obtain ⟨w, hw, hp⟩ := e.memChunk_efiHost
  exact .efi w rfl hkind (Int.le_refl 0) hw hp

theorem in_efiHost (e : EntryPoint) : ∃ table, e.In e.efiHost table := by
  have hlen : (e.address : Int) + e.size ≤ e.efiHost.memory.length := by
    simp only [efiHost, List.length_append, List.length_replicate]
    omega
  refine ⟨(e.efiHost.memory.drop e.address).take e.size, ?_,
    fun f hf => absurd hf (Option.not_mem_none f)⟩
  simp only [memChunk, Int.toNat_natCast, hlen, Int.natCast_nonneg, and_self, if_true]

/-- A machine where sysfs has an entry point, and a table of zero bytes. -/
def emptyHost (e : EntryPoint) : Host where
  entry := some e.buf
  table := some []
  efi := EFI_NO_SMBIOS
  memory := List.replicate e.address 0
  readable := true
  x86 := false

theorem read_emptyHost (e : EntryPoint) : read e.emptyHost = none := by
  have hsysfs : sysfsRoute e.emptyHost = none := by
    simp only [sysfsRoute, smbios3Decode, smbiosDecode, legacyDecode, dmiTable, Host.file,
      emptyHost, readFile, if_true, List.length_nil, Nat.le_refl, Option.map_none, ite_self]
    split <;> rfl
  have hefi : e.emptyHost.efi = EFI_NO_SMBIOS := rfl
  simp only [read, hsysfs, hefi, if_true]

theorem in_emptyHost (hsize : e.size = 0) : e.In e.emptyHost [] := by
  refine ⟨?_, fun f hf => (Option.some.inj hf).symm⟩
  simp [memChunk, emptyHost, hsize]

/-- **The table is found the same way on every route exactly for an entry point that is not of
32 bits, and whose table is not empty.** -/
theorem routes_agree_iff (e : EntryPoint) : e.Same ↔ e.kind ≠ .sm ∧ e.size ≠ 0 := by
  constructor
  · intro ⟨version, hsame⟩
    constructor
    · intro hkind
      obtain ⟨table, hin⟩ := e.in_efiHost
      have hread := hsame e.efiHost table hin (reached_efiHost (by rw [hkind]; decide))
      rw [read_efiHost hkind] at hread
      contradiction
    · intro hsize
      have hread := hsame e.emptyHost [] (in_emptyHost hsize) (.sysfs rfl rfl)
      rw [read_emptyHost e] at hread
      contradiction
  · intro ⟨hkind, hsize⟩
    exact ⟨e.kind.version e.buf, fun h table => read_of_reached hkind hsize⟩

/-- An entry point of SMBIOS 2.8. -/
def entry28 : EntryPoint where
  kind := .sm
  buf := [0x5F, 0x53, 0x4D, 0x5F, 0x73, 0x1F, 2, 8, 6, 0, 0, 0, 0, 0, 0, 0,
    0x5F, 0x44, 0x4D, 0x49, 0x5F, 0xF9, 6, 0, 0x40, 0, 0, 0, 1, 0, 0x28]
  valid := by refine ⟨?_, ?_, ?_, ?_, ?_, ?_, ?_⟩ <;> decide +kernel
  fits := by decide +kernel

def table28 : List UInt8 := [127, 4, 0, 0, 0, 0]

def host28 : Host where
  entry := none
  table := some table28
  efi := 0x20
  memory := List.replicate 0x20 0 ++ entry28.buf ++ [0] ++ table28
  readable := true
  x86 := true

/-- EFI tells the entry point, the memory and sysfs have the table, and none is found. -/
theorem not_routes_agree : ¬entry28.Same := by
  intro ⟨version, hsame⟩
  have hin : entry28.In host28 table28 :=
    ⟨by decide +kernel, fun f hf => (Option.some.inj hf).symm⟩
  have hreached : entry28.Reached host28 :=
    .efi (entry28.buf ++ [0]) rfl (by decide) (by decide) (by decide +kernel)
      (List.prefix_append ..)
  have hnone : read host28 = none := by decide +kernel
  rw [hsame host28 table28 hin hreached] at hnone
  contradiction

end EntryPoint

end Dmi

end XLArig
