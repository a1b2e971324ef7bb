import XLArig.Pool

/-!
# XLArig.Pool.Url

How an address is read from its text: `Url::parse`.

The text is taken apart from left to right, and what was found is kept even when the rest is
no address: a scheme alone leaves an address without a text.
-/

namespace XLArig

namespace CString

/-! ## The C library -/

/-- `strstr`: the text from the first place where `sub` is. -/
def strstr (sub : List UInt8) : List UInt8 → Option (List UInt8)
  | [] => if sub = [] then some [] else none
  | c :: s => if sub <+: c :: s then some (c :: s) else strstr sub s

/-- `strchr`. -/
def strchr (c : UInt8) : List UInt8 → Option (List UInt8)
  | [] => none
  | d :: s => if d = c then some (d :: s) else strchr c s

/-- `strncasecmp(s, start, strlen(start)) == 0`. -/
def startsWith (s start : List UInt8) : Bool := sameIgnoringCase (s.take start.length) start

def isSpace (c : UInt8) : Bool := c = 0x20 ∨ (0x09 ≤ c ∧ c ≤ 0x0D)

def isDigit (c : UInt8) : Bool := 0x30 ≤ c ∧ c ≤ 0x39

/-- `strtol` with base 10 and 64 bits. -/
def strtol (s : List UInt8) : Int :=
  let s := s.dropWhile isSpace
  let negative := s.head? = some 0x2D
  let s := if s.head? = some 0x2D ∨ s.head? = some 0x2B then s.drop 1 else s
  let n : Int := (s.takeWhile isDigit).foldl (fun n c => n * 10 + (c.toNat - 0x30)) 0
  max (-2 ^ 63) (min (if negative then -n else n) (2 ^ 63 - 1))

end CString

namespace Url

open CString

/-! ## Addresses -/

/-- `kStratumTcp` and so on, with the scheme that each stands for, and whether that has TLS. -/
def schemes : List (List UInt8 × Scheme × Bool) :=
  [(bytes "stratum+tcp://", .STRATUM, false), (bytes "stratum+ssl://", .STRATUM, true),
    (bytes "socks5://", .SOCKS5, false), (bytes "daemon+https://", .DAEMON, true),
    (bytes "daemon+http://", .DAEMON, false)]

/-- The number after a colon, as a port. -/
def readPort (colon : List UInt8) : UInt16 := .ofNat (strtol (colon.drop 1) % 2 ^ 16).toNat

/-- `parseIPv6`; the host is between the brackets. -/
def parseIPv6 (u : Url) (addr : List UInt8) : Url :=
  match strchr 0x5D addr with
  | none => u
  | some rest =>
      match strchr 0x3A rest with
      | none => u
      | some colon =>
          { u with
            host := some ((addr.take (addr.length - rest.length)).drop 1)
            port := readPort colon }

/-- `parse` after the scheme. -/
def parseHost (u : Url) (text base : List UInt8) : Url :=
  if base = [] ∨ base.head? = some 0x2F then u
  else
    let u := { u with url := some text }
    if base.head? = some 0x5B then u.parseIPv6 base
    else
      match strchr 0x3A base with
      | none => { u with host := some base }
      | some colon =>
          { u with
            host := some (base.take (base.length - colon.length))
            port := readPort colon }

/-- `parse`. -/
def parse (u : Url) : CString → Url
  | none => u
  | some text =>
      match strstr (bytes "://") text with
      | none => u.parseHost text text
      | some rest =>
          match schemes.find? fun x => startsWith text x.1 with
          | none => u
          | some (_, scheme, tls) =>
              { u with
                scheme
                tls }.parseHost text (rest.drop 3)

/-! ## What is kept of the text -/

variable {u : Url} {text base : List UInt8} {t : CString}

theorem url_parseIPv6 (addr : List UInt8) : (u.parseIPv6 addr).url = u.url := by
  unfold parseIPv6
  split
  · rfl
  · split <;> rfl

theorem parseHost_cases (u : Url) (text base : List UInt8) :
    (u.parseHost text base).url = some text ∨ u.parseHost text base = u := by
  unfold parseHost
  split
  · exact .inr rfl
  · left
    dsimp only
    split
    · rw [url_parseIPv6]
    · split <;> rfl

/-- The text is kept, or no more than a scheme is. -/
theorem parse_cases (u : Url) (t : CString) :
    (u.parse t).url = t ∨ ∃ scheme tls, u.parse t = { u with scheme, tls } := by
  cases t with
  | none => exact .inr ⟨_, _, rfl⟩
  | some text =>
      unfold parse
      dsimp only
      cases strstr (bytes "://") text with
      | none =>
          obtain htext | hsame := parseHost_cases u text text
          · exact .inl htext
          · exact .inr ⟨_, _, hsame⟩
      | some rest =>
          cases schemes.find? fun x => startsWith text x.1 with
          | none => exact .inr ⟨_, _, rfl⟩
          | some x =>
              obtain ⟨_, scheme, tls⟩ := x
              obtain htext | hsame := parseHost_cases { u with scheme, tls } text (rest.drop 3)
              · exact .inl htext
              · exact .inr ⟨_, _, hsame⟩

/-- An address that has a text has that of which it was read. -/
theorem url_parse (hu : u.url = none) (h : (u.parse t).url ≠ none) : (u.parse t).url = t := by
  obtain htext | ⟨_, _, hscheme⟩ := parse_cases u t
  · exact htext
  · rw [hscheme] at h
    exact absurd hu h

/-- So does one that has a host. -/
theorem url_parse_of_host (hhost : u.host = none) (h : (u.parse t).host ≠ none) :
    (u.parse t).url = t := by
  obtain htext | ⟨_, _, hscheme⟩ := parse_cases u t
  · exact htext
  · rw [hscheme] at h
    exact absurd hhost h

/-- Only with a host is a port read. -/
theorem port_parse (hhost : (u.parse t).host = none) : (u.parse t).port = u.port := by
  have hipv6 : ∀ (u : Url) (addr : List UInt8), (u.parseIPv6 addr).host = none →
      (u.parseIPv6 addr).port = u.port := by
    intro u addr h
    unfold parseIPv6 at h ⊢
    split at h
    · rfl
    · split at h
      · rfl
      · contradiction
  have hparse : ∀ (u : Url) (text base : List UInt8), (u.parseHost text base).host = none →
      (u.parseHost text base).port = u.port := by
    intro u text base h
    unfold parseHost at h ⊢
    dsimp only at h ⊢
    split at h
    · rw [if_pos ‹_›]
    next hbase =>
      rw [if_neg hbase]
      split at h
      · next hbracket =>
        rw [if_pos hbracket]
        exact hipv6 _ _ h
      · split at h <;> contradiction
  cases t with
  | none => rfl
  | some text =>
      unfold parse at hhost ⊢
      dsimp only at hhost ⊢
      cases hrest : strstr (bytes "://") text with
      | none =>
          rw [hrest] at hhost
          exact hparse _ _ _ hhost
      | some rest =>
          rw [hrest] at hhost
          dsimp only at hhost ⊢
          cases hscheme : schemes.find? fun x => startsWith text x.1 with
          | none => rfl
          | some x =>
              rw [hscheme] at hhost
              exact hparse _ _ _ hhost

end Url

end XLArig
