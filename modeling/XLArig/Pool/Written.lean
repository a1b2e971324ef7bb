import XLArig.Pool.Url

/-!
# XLArig.Pool.Written

Which texts `Url::parse` takes for the address of a pool: `[scheme://]host[:port]`, where a host
in brackets is not looked into.

Some texts are taken although they are no addresses: without a host, with something between a
bracket and the port, or with a port that `strtol` reads a number from that is none.  `Slip` names
them; for all others `isValid_iff_written` says that what is taken is what is written.
-/

namespace XLArig

namespace CString

/-! ## The C library -/

variable {c : UInt8} {s text : List UInt8}

theorem strchr_none (h : c ∉ s) : strchr c s = none := by
  induction s with
  | nil => rfl
  | cons d s ih =>
      rw [List.mem_cons, not_or] at h
      rw [strchr, if_neg fun hd => h.1 hd.symm, ih h.2]

theorem strchr_append {before : List UInt8} (h : c ∉ before) (after : List UInt8) :
    strchr c (before ++ c :: after) = some (c :: after) := by
  induction before with
  | nil => exact if_pos rfl
  | cons d before ih =>
      rw [List.mem_cons, not_or] at h
      rw [List.cons_append, strchr, if_neg fun hd => h.1 hd.symm, ih h.2]

theorem strchr_cases (c : UInt8) (s : List UInt8) : (c ∉ s ∧ strchr c s = none) ∨
    ∃ before after, c ∉ before ∧ s = before ++ c :: after ∧ strchr c s = some (c :: after) := by
  induction s with
  | nil => exact .inl ⟨List.not_mem_nil, rfl⟩
  | cons d s ih =>
      by_cases hd : d = c
      · subst hd
        exact .inr ⟨[], s, List.not_mem_nil, rfl, if_pos rfl⟩
      · have hcons : strchr c (d :: s) = strchr c s := if_neg hd
        rw [hcons]
        obtain ⟨hs, hnone⟩ | ⟨before, after, hbefore, rfl, hsome⟩ := ih
        · exact .inl ⟨by simp [hs, Ne.symm hd], hnone⟩
        · exact .inr ⟨d :: before, after, by simp [hbefore, Ne.symm hd], rfl, hsome⟩

/-- A text whose first byte is not found before is found where it stands. -/
theorem strstr_append {before sub : List UInt8} (h : c ∉ before) (after : List UInt8) :
    strstr (c :: sub) (before ++ (c :: sub ++ after)) = some (c :: sub ++ after) := by
  induction before with
  | nil =>
      have hprefix : c :: sub <+: c :: (sub ++ after) := ⟨after, rfl⟩
      rw [List.nil_append, List.cons_append, strstr, if_pos hprefix]
  | cons d before ih =>
      rw [List.mem_cons, not_or] at h
      have hnot : ¬ c :: sub <+: d :: (before ++ (c :: sub ++ after)) := fun hprefix =>
        h.1 (List.cons_prefix_cons.mp hprefix).1
      rw [List.cons_append, strstr, if_neg hnot, ih h.2]

theorem startsWith_iff {start : List UInt8} :
    startsWith text start = true ↔ start.map tolower <+: text.map tolower := by
  rw [startsWith, sameIgnoringCase, beq_iff_eq, List.map_take, List.prefix_iff_eq_take,
    List.length_map, eq_comm]

/-! ### Numbers -/

/-- The number that digits stand for. -/
def numberOf (digits : List UInt8) : Nat := digits.foldl (fun n c => n * 10 + (c.toNat - 0x30)) 0

theorem isDigit_spec (h : isDigit c = true) :
    isSpace c = false ∧ c ≠ 0x2D ∧ c ≠ 0x2B ∧ 0x30 ≤ c.toNat := by
  simp only [isDigit, isSpace, decide_eq_true_eq, decide_eq_false_iff_not, UInt8.le_iff_toNat_le,
    ← UInt8.toNat_inj, ne_eq] at h ⊢
  change 0x30 ≤ c.toNat ∧ c.toNat ≤ 0x39 at h
  change ¬ (c.toNat = 0x20 ∨ 0x09 ≤ c.toNat ∧ c.toNat ≤ 0x0D) ∧ ¬ c.toNat = 0x2D ∧
    ¬ c.toNat = 0x2B ∧ 0x30 ≤ c.toNat
  omega

theorem foldl_digits {digits : List UInt8} (h : ∀ c ∈ digits, isDigit c = true) (n : Nat) :
    digits.foldl (fun (n : Int) c => n * 10 + (c.toNat - 0x30)) n =
      (digits.foldl (fun n c => n * 10 + (c.toNat - 0x30)) n : Nat) := by
  induction digits generalizing n with
  | nil => rfl
  | cons c digits ih =>
      have hc := (isDigit_spec (h c List.mem_cons_self)).2.2.2
      have hstep : (n : Int) * 10 + (c.toNat - 0x30) = (n * 10 + (c.toNat - 0x30) : Nat) := by
        omega
      rw [List.foldl_cons, List.foldl_cons, hstep]
      exact ih (fun c hc => h c (List.mem_cons_of_mem _ hc)) _

/-- Digits alone are read as their number, if it is not too large. -/
theorem strtol_digits {digits : List UInt8} (h : ∀ c ∈ digits, isDigit c = true)
    (hlt : numberOf digits < 2 ^ 63) : strtol digits = numberOf digits := by
  have hfold := foldl_digits h 0
  have htake : digits.takeWhile isDigit = digits := List.takeWhile_eq_self_iff.mpr h
  have hhead : digits.dropWhile isSpace = digits ∧ digits.head? ≠ some 0x2D ∧
      digits.head? ≠ some 0x2B := by
    cases digits with
    | nil => exact ⟨rfl, by simp, by simp⟩
    | cons c digits =>
        obtain ⟨hspace, hminus, hplus, -⟩ := isDigit_spec (h c List.mem_cons_self)
        exact ⟨List.dropWhile_cons_of_neg (by simp [hspace]), by simpa using hminus,
          by simpa using hplus⟩
  unfold strtol
  dsimp only
  rw [hhead.1, if_neg (not_or.mpr hhead.2), htake, if_neg (by simp [hhead.2.1])]
  unfold numberOf at hlt ⊢
  change max (-2 ^ 63) (min (digits.foldl (fun (n : Int) c => n * 10 + (c.toNat - 0x30)) (0 : Nat))
    (2 ^ 63 - 1)) = _
  rw [hfold]
  omega

end CString

namespace Url

open CString

/-! ## What is written -/

/-- A decimal number between 1 and 65535. -/
def Decimal (digits : List UInt8) (port : UInt16) : Prop :=
  (∀ c ∈ digits, isDigit c = true) ∧ numberOf digits = port.toNat ∧ 0 < port

/-- `pre` is one of the schemes, in letters of any case, or there is none in the whole text. -/
def Prefixed (pre rest : List UInt8) (scheme : Scheme) (tls : Bool) : Prop :=
  (pre = [] ∧ strstr (bytes "://") rest = none ∧ scheme = .UNSPECIFIED ∧ tls = false) ∨
    ∃ name, (name, scheme, tls) ∈ schemes ∧ sameIgnoringCase pre name = true

/-- `host[:port]`: the host is not empty, has no colon and begins with a byte that is `allowed`; or
it stands in brackets, which a port follows. -/
def HostPort (allowed : UInt8 → Prop) (rest host : List UInt8) (port : UInt16) : Prop :=
  host ≠ [] ∧
    ((0x3A ∉ host ∧ (∀ c, host.head? = some c → allowed c) ∧
        (rest = host ∧ port = 3333 ∨ ∃ digits, rest = host ++ 0x3A :: digits ∧ Decimal digits port)) ∨
      (0x5D ∉ host ∧ ∃ digits, rest = 0x5B :: host ++ 0x5D :: 0x3A :: digits ∧ Decimal digits port))

/-- `[scheme://]host[:port]`. -/
def Written (allowed : UInt8 → Prop) (text : List UInt8) (scheme : Scheme) (tls : Bool)
    (host : List UInt8) (port : UInt16) : Prop :=
  ∃ pre rest, text = pre ++ rest ∧ Prefixed pre rest scheme tls ∧ HostPort allowed rest host port

/-- A host does not begin with a slash, nor with a bracket unless it stands in brackets. -/
def Allowed (c : UInt8) : Prop := c ≠ 0x2F ∧ c ≠ 0x5B

/-- A number is read from the text of a port although that is none between 1 and 65535. -/
def OddPort (text : List UInt8) : Prop :=
  readPort (0x3A :: text) ≠ 0 ∧ ∀ port, ¬ Decimal text port

/-- There is no host, something stands between the brackets and the port, or the port is odd. -/
inductive Odd : List UInt8 → Prop
  | noHost (text : List UInt8) : Odd (0x3A :: text)
  | noLiteral (text : List UInt8) : Odd (0x5B :: 0x5D :: text)
  | between {host more : List UInt8} (text : List UInt8) (hhost : 0x5D ∉ host) (hmore : 0x3A ∉ more)
      (hne : more ≠ []) : Odd (0x5B :: host ++ 0x5D :: (more ++ 0x3A :: text))
  | port {host text : List UInt8} (hhost : 0x3A ∉ host) (hbracket : host.head? ≠ some 0x5B)
      (hport : OddPort text) : Odd (host ++ 0x3A :: text)
  | literalPort {host text : List UInt8} (hhost : 0x5D ∉ host) (hport : OddPort text) :
      Odd (0x5B :: host ++ 0x5D :: 0x3A :: text)

/-- What follows the scheme is odd. -/
def Slip (text : List UInt8) : Prop :=
  ∃ pre rest scheme tls, text = pre ++ rest ∧ Prefixed pre rest scheme tls ∧ Odd rest

/-! ## Schemes -/

theorem tolower_eq_iff {c k : UInt8} (hk : k < 0x41) : tolower c = k ↔ c = k := by
  unfold tolower
  split
  · next hc =>
      have hnat : 0x41 ≤ c.toNat ∧ c.toNat ≤ 0x5A := hc
      have hlt : k.toNat < 0x41 := hk
      have hadd : (c + 0x20).toNat = c.toNat + 0x20 := by
        rw [UInt8.toNat_add]
        exact Nat.mod_eq_of_lt (by change c.toNat + 0x20 < 256; omega)
      rw [← UInt8.toNat_inj, ← UInt8.toNat_inj, hadd]
      omega
  · rfl

/-- No scheme is the beginning of another. -/
theorem schemes_apart : ∀ x ∈ schemes, ∀ y ∈ schemes,
    x.1.map tolower <+: y.1.map tolower → x = y := by
  decide

/-- A scheme is a name without a colon, and `://`. -/
theorem schemes_name : ∀ x ∈ schemes, let name := x.1.take (x.1.length - 3)
    x.1 = name ++ bytes "://" ∧ 0x3A ∉ name.map tolower := by
  decide

/-- So is what is the same but for the case of its letters. -/
theorem name_of_same {pre : List UInt8} {x : List UInt8 × Scheme × Bool} (hx : x ∈ schemes)
    (h : sameIgnoringCase pre x.1 = true) :
    ∃ name, pre = name ++ bytes "://" ∧ 0x3A ∉ name := by
  obtain ⟨heq, hcolon⟩ := schemes_name x hx
  rw [sameIgnoringCase, beq_iff_eq, heq, List.map_append, List.map_eq_append_iff] at h
  obtain ⟨name, tail, rfl, hname, htail⟩ := h
  refine ⟨name, ?_, fun hmem => hcolon ?_⟩
  · have htext : (bytes "://").map tolower = [0x3A, 0x2F, 0x2F] := by decide
    rw [htext] at htail
    obtain ⟨a, b, c, rfl⟩ := List.length_eq_three.mp
      ((List.length_map (f := tolower)).symm.trans (congrArg List.length htail))
    simp only [List.map_cons, List.map_nil, List.cons.injEq, and_true] at htail
    obtain ⟨ha, hb, hc⟩ := htail
    rw [tolower_eq_iff (by decide)] at ha hb hc
    rw [ha, hb, hc]
    rfl
  · rw [← hname]
    exact List.mem_map.mpr ⟨0x3A, hmem, rfl⟩

/-- The scheme a text begins with is the one that is found. -/
theorem find?_schemes {text : List UInt8} {x : List UInt8 × Scheme × Bool} (hx : x ∈ schemes)
    (h : startsWith text x.1 = true) :
    (schemes.find? fun x => startsWith text x.1) = some x := by
  cases hfind : schemes.find? fun x => startsWith text x.1 with
  | none => exact absurd h (by simpa using List.find?_eq_none.mp hfind x hx)
  | some y =>
      have hy : startsWith text y.1 = true := by simpa using List.find?_some hfind
      have hmem := List.mem_of_find?_eq_some hfind
      rw [startsWith_iff] at h hy
      obtain hle | hle := List.prefix_or_prefix_of_prefix h hy
      · rw [schemes_apart x hx y hmem hle]
      · rw [schemes_apart y hmem x hx hle]

/-- `parse` reads the scheme that is written, and what follows it. -/
theorem parse_of_prefixed {pre rest : List UInt8} {scheme : Scheme} {tls : Bool}
    (h : Prefixed pre rest scheme tls) : empty.parse (some (pre ++ rest)) =
      { empty with scheme, tls }.parseHost (pre ++ rest) rest := by
  obtain ⟨rfl, hnone, rfl, rfl⟩ | ⟨name, hmem, hsame⟩ := h
  · rw [List.nil_append]
    unfold parse
    dsimp only
    rw [hnone]
    rfl
  · obtain ⟨before, rfl, hcolon⟩ := name_of_same hmem hsame
    have hstr : strstr (bytes "://") (before ++ bytes "://" ++ rest) = some (bytes "://" ++ rest) := by
      rw [List.append_assoc]
      exact strstr_append hcolon rest
    have hstarts : startsWith (before ++ bytes "://" ++ rest) name = true := by
      rw [startsWith_iff, List.map_append]
      rw [sameIgnoringCase, beq_iff_eq] at hsame
      rw [hsame]
      exact List.prefix_append _ _
    unfold parse
    dsimp only
    rw [hstr]
    dsimp only
    rw [find?_schemes hmem hstarts]
    rfl

/-- Where no scheme is written, or a wrong one, nothing is read. -/
theorem prefixed_or_empty (text : List UInt8) :
    (∃ pre rest scheme tls, text = pre ++ rest ∧ Prefixed pre rest scheme tls) ∨
      empty.parse (some text) = empty := by
  cases hstr : strstr (bytes "://") text with
  | none => exact .inl ⟨[], text, .UNSPECIFIED, false, rfl, .inl ⟨rfl, hstr, rfl, rfl⟩⟩
  | some found =>
      cases hfind : schemes.find? fun x => startsWith text x.1 with
      | none =>
          right
          unfold parse
          dsimp only
          rw [hstr]
          dsimp only
          rw [hfind]
      | some x =>
          obtain ⟨name, scheme, tls⟩ := x
          have hstarts : startsWith text name = true := by simpa using List.find?_some hfind
          exact .inl ⟨text.take name.length, text.drop name.length, scheme, tls,
            (List.take_append_drop _ _).symm,
            .inr ⟨name, List.mem_of_find?_eq_some hfind, hstarts⟩⟩

/-! ## Hosts and ports -/

/-- What `parseHost` takes: after the colon anything that a port is read of. -/
def Accepts (rest host : List UInt8) (port : UInt16) : Prop :=
  port ≠ 0 ∧
    ((rest ≠ [] ∧ rest.head? ≠ some 0x2F ∧ rest.head? ≠ some 0x5B ∧ 0x3A ∉ host ∧
        (rest = host ∧ port = 3333 ∨
          ∃ text, rest = host ++ 0x3A :: text ∧ port = readPort (0x3A :: text))) ∨
      (0x5D ∉ host ∧ ∃ more text, 0x3A ∉ more ∧
        rest = 0x5B :: host ++ 0x5D :: (more ++ 0x3A :: text) ∧ port = readPort (0x3A :: text)))

section

variable {u : Url} {text rest host : List UInt8} {port : UInt16}

theorem parseHost_of_accepts (hu : u.port = 3333) (h : Accepts rest host port) :
    u.parseHost text rest = { u with url := some text, host := some host, port := port } := by
  obtain ⟨-, ⟨hne, hslash, hbracket, hcolon, hport⟩ | ⟨hend, more, after, hmore, rfl, rfl⟩⟩ := h
  · have hempty : ¬ (rest = [] ∨ rest.head? = some 0x2F) := not_or.mpr ⟨hne, hslash⟩
    unfold parseHost
    rw [if_neg hempty]
    dsimp only
    rw [if_neg hbracket]
    obtain ⟨rfl, rfl⟩ | ⟨after, rfl, rfl⟩ := hport
    · rw [strchr_none hcolon, ← hu]
    · rw [strchr_append hcolon]
      simp
  · have hempty : ¬ (0x5B :: host ++ 0x5D :: (more ++ 0x3A :: after) = [] ∨
        (0x5B :: host ++ 0x5D :: (more ++ 0x3A :: after)).head? = some 0x2F) := by simp
    have hbracket : (0x5B :: host ++ 0x5D :: (more ++ 0x3A :: after)).head? = some 0x5B := by simp
    have hopen : (0x5D : UInt8) ∉ 0x5B :: host := by simp [hend]
    have hcolon : strchr 0x3A (0x5D :: (more ++ 0x3A :: after)) = some (0x3A :: after) :=
      strchr_append (show (0x3A : UInt8) ∉ 0x5D :: more by simp [hmore]) after
    have htake : (0x5B :: host ++ 0x5D :: (more ++ 0x3A :: after)).take
        ((0x5B :: host ++ 0x5D :: (more ++ 0x3A :: after)).length -
          (0x5D :: (more ++ 0x3A :: after)).length) = 0x5B :: host := by
      rw [List.length_append, Nat.add_sub_cancel, List.take_left]
    unfold parseHost
    rw [if_neg hempty]
    dsimp only
    rw [if_pos hbracket, parseIPv6, strchr_append hopen]
    dsimp only
    rw [hcolon, htake]
    rfl

theorem accepts_of_isValid (hhost : u.host = none)
    (h : (u.parseHost text rest).isValid = true) : ∃ host port, Accepts rest host port := by
  have hnone : ∀ v : Url, v.host = none → ¬ v.isValid = true := by
    intro v hv hvalid
    simp [isValid, hv] at hvalid
  have hport : ∀ v : Url, v.isValid = true → v.port ≠ 0 := by
    intro v hvalid hzero
    simp [isValid, hzero] at hvalid
  unfold parseHost at h
  split at h
  · exact absurd h (hnone _ hhost)
  next hempty =>
    obtain ⟨hne, hslash⟩ := not_or.mp hempty
    dsimp only at h
    split at h
    next hbracket =>
      unfold parseIPv6 at h
      obtain ⟨hend, hstr⟩ | ⟨before, after, hend, hrest, hstr⟩ := strchr_cases 0x5D rest
      · rw [hstr] at h
        exact absurd h (hnone _ hhost)
      rw [hstr] at h
      dsimp only at h
      obtain ⟨hcolon, hstr'⟩ | ⟨more, tail, hcolon, hmore, hstr'⟩ := strchr_cases 0x3A (0x5D :: after)
      · rw [hstr'] at h
        exact absurd h (hnone _ hhost)
      rw [hstr'] at h
      have hzero := hport _ h
      cases before with
      | nil => simp [hrest] at hbracket
      | cons c host =>
          cases more with
          | nil => simp at hmore
          | cons d more =>
              rw [hrest] at hbracket
              obtain rfl : c = 0x5B := by simpa using hbracket
              obtain ⟨rfl, hafter⟩ := List.cons.inj hmore
              rw [List.mem_cons, not_or] at hend hcolon
              refine ⟨host, _, hzero, .inr ⟨hend.2, more, tail, hcolon.2, ?_, rfl⟩⟩
              rw [hrest, hafter]
              rfl
    next hbracket =>
      obtain ⟨hcolon, hstr⟩ | ⟨before, after, hcolon, hrest, hstr⟩ := strchr_cases 0x3A rest
      · rw [hstr] at h
        exact ⟨rest, 3333, by decide, .inl ⟨hne, hslash, hbracket, hcolon, .inl ⟨rfl, rfl⟩⟩⟩
      · rw [hstr] at h
        exact ⟨before, _, hport _ h, .inl ⟨hne, hslash, hbracket, hcolon,
          .inr ⟨after, hrest, rfl⟩⟩⟩

theorem readPort_decimal {digits : List UInt8} (h : Decimal digits port) :
    readPort (0x3A :: digits) = port ∧ port ≠ 0 := by
  obtain ⟨hdigits, hnumber, hpos⟩ := h
  have hlt := port.toNat_lt
  have hstrtol := strtol_digits hdigits (by omega)
  refine ⟨?_, fun hzero => ?_⟩
  · unfold readPort
    rw [List.drop_one, List.tail_cons, hstrtol, hnumber, ← UInt16.toNat_inj, UInt16.toNat_ofNat']
    omega
  · rw [hzero] at hpos
    contradiction

/-- What is written is taken. -/
theorem HostPort.accepts (h : HostPort Allowed rest host port) : Accepts rest host port := by
  obtain ⟨hne, ⟨hcolon, hallowed, hport⟩ | ⟨hend, digits, rfl, hport⟩⟩ := h
  · obtain ⟨c, host, rfl⟩ := List.exists_cons_of_ne_nil hne
    obtain ⟨hslash, hbracket⟩ := hallowed c rfl
    obtain ⟨rfl, rfl⟩ | ⟨digits, rfl, hport⟩ := hport
    · exact ⟨by decide, .inl ⟨hne, by simpa using hslash, by simpa using hbracket, hcolon,
        .inl ⟨rfl, rfl⟩⟩⟩
    · obtain ⟨hread, hzero⟩ := readPort_decimal hport
      exact ⟨hzero, .inl ⟨by simp, by simpa using hslash, by simpa using hbracket, hcolon,
        .inr ⟨digits, rfl, hread.symm⟩⟩⟩
  · obtain ⟨hread, hzero⟩ := readPort_decimal hport
    exact ⟨hzero, .inr ⟨hend, [], digits, List.not_mem_nil, rfl, hread.symm⟩⟩

/-- What is taken is written, unless it is odd. -/
theorem Accepts.hostPort (h : Accepts rest host port) (hodd : ¬ Odd rest) :
    HostPort Allowed rest host port := by
  have hdecimal : ∀ digits, port = readPort (0x3A :: digits) → port ≠ 0 → ¬ OddPort digits →
      Decimal digits port := by
    intro digits hport hzero hplain
    by_contra hno
    refine hplain ⟨hport ▸ hzero, fun other hother => hno ?_⟩
    rwa [hport, (readPort_decimal hother).1]
  obtain ⟨hzero, ⟨hne, hslash, hbracket, hcolon, hport⟩ |
    ⟨hend, more, digits, hmore, rfl, hport⟩⟩ := h
  · have hfirst : host ≠ [] → host.head? = rest.head? := by
      intro hhost
      obtain ⟨rfl, -⟩ | ⟨digits, rfl, -⟩ := hport
      · rfl
      · exact (List.head?_append_of_ne_nil _ hhost).symm
    have hhost : host ≠ [] := by
      rintro rfl
      obtain ⟨rfl, -⟩ | ⟨digits, rfl, -⟩ := hport
      · exact hne rfl
      · exact hodd (.noHost _)
    refine ⟨hhost, .inl ⟨hcolon, fun c hc => ?_, ?_⟩⟩
    · rw [hfirst hhost] at hc
      exact ⟨fun h => hslash (h ▸ hc), fun h => hbracket (h ▸ hc)⟩
    · obtain hplain | ⟨digits, rfl, hport⟩ := hport
      · exact .inl hplain
      · refine .inr ⟨digits, rfl, hdecimal digits hport hzero fun hno => hodd ?_⟩
        exact .port hcolon (fun h => hbracket ((hfirst hhost).symm.trans h)) hno
  · obtain rfl : more = [] := by
      by_contra hno
      exact hodd (.between digits hend hmore hno)
    have hhost : host ≠ [] := by
      rintro rfl
      exact hodd (.noLiteral _)
    exact ⟨hhost, .inr ⟨hend, digits, rfl, hdecimal digits hport hzero
      fun hno => hodd (.literalPort hend hno)⟩⟩

end

/-! ## Texts -/

/-- **What is taken is what is written.**  Of a text that is no slip, the address is valid just
when it is written as `[scheme://]host[:port]`, and has the parts that are written. -/
theorem isValid_iff_written (text : List UInt8) (h : ¬ Slip text) :
    ((empty.parse (some text)).isValid = true ↔
      ∃ scheme tls host port, Written Allowed text scheme tls host port) ∧
    ∀ scheme tls host port, Written Allowed text scheme tls host port →
      (empty.parse (some text)).scheme = scheme ∧ (empty.parse (some text)).tls = tls ∧
        (empty.parse (some text)).host = some host ∧ (empty.parse (some text)).port = port := by
  have hwritten : ∀ scheme tls host port, Written Allowed text scheme tls host port →
      empty.parse (some text) = ⟨tls, scheme, some host, some text, port⟩ ∧ port ≠ 0 := by
    rintro scheme tls host port ⟨pre, rest, rfl, hpre, hhost⟩
    rw [parse_of_prefixed hpre, parseHost_of_accepts rfl hhost.accepts]
    exact ⟨rfl, hhost.accepts.1⟩
  refine ⟨⟨fun hvalid => ?_, ?_⟩, ?_⟩
  · obtain ⟨pre, rest, scheme, tls, rfl, hpre⟩ | hempty := prefixed_or_empty text
    · rw [parse_of_prefixed hpre] at hvalid
      obtain ⟨host, port, haccepts⟩ := accepts_of_isValid rfl hvalid
      exact ⟨scheme, tls, host, port, pre, rest, rfl, hpre,
        haccepts.hostPort fun hodd => h ⟨pre, rest, scheme, tls, rfl, hpre, hodd⟩⟩
    · rw [hempty] at hvalid
      contradiction
  · rintro ⟨scheme, tls, host, port, hw⟩
    obtain ⟨hparse, hzero⟩ := hwritten scheme tls host port hw
    rw [hparse, isValid]
    simpa [UInt16.pos_iff_ne_zero] using hzero
  · intro scheme tls host port hw
    rw [(hwritten scheme tls host port hw).1]
    exact ⟨rfl, rfl, rfl, rfl⟩

example : (empty.parse (some (bytes "stratum+ssl://[::1]:443"))).isValid = true := by
  decide +kernel

/-- The number 65616 is no port, and is taken for 80. -/
example : (empty.parse (some (bytes "a:65616"))).port = 80 := by decide +kernel

/-! ### Two texts -/

def sampleText : List UInt8 := bytes "a:80"

theorem not_slip_sample : ¬ Slip sampleText := by
  rintro ⟨pre, rest, scheme, tls, htext, hpre, hodd⟩
  obtain ⟨rfl, -⟩ | ⟨name, hmem, hsame⟩ := hpre
  · rw [List.nil_append] at htext
    subst htext
    generalize hrest : sampleText = rest at hodd
    have hlist : sampleText = [0x61, 0x3A, 0x38, 0x30] := by decide
    rw [hlist] at hrest
    cases hodd with
    | noHost | noLiteral | between | literalPort => simp at hrest
    | @port host digits hhost _ hport =>
        match host with
        | [] => simp at hrest
        | [c] =>
            have hdigits : c = 0x61 ∧ digits = [0x38, 0x30] := by simpa using hrest.symm
            rw [hdigits.2] at hport
            exact hport.2 80 ⟨by decide +kernel, by decide +kernel, by decide⟩
        | c :: d :: host =>
            simp only [List.cons_append, List.cons.injEq] at hrest
            obtain ⟨-, rfl, -⟩ := hrest
            simp at hhost
  · obtain ⟨before, rfl, -⟩ := name_of_same hmem hsame
    have hslash : (0x2F : UInt8) ∈ sampleText := by
      rw [htext]
      exact List.mem_append_left _ (List.mem_append_right _ (by decide))
    revert hslash
    decide

theorem isValid_iff_written_sample : (empty.parse (some sampleText)).isValid = true ∧
    (empty.parse (some sampleText)).host = some (bytes "a") ∧
    (empty.parse (some sampleText)).port = 80 := by
  have hwritten : Written Allowed sampleText .UNSPECIFIED false (bytes "a") 80 :=
    ⟨[], sampleText, rfl, .inl ⟨rfl, by decide, rfl, rfl⟩, by decide, .inl ⟨by decide,
      fun c hc => Option.some.inj hc ▸ ⟨by decide, by decide⟩,
      .inr ⟨bytes "80", rfl, by decide +kernel, by decide +kernel, by decide⟩⟩⟩
  obtain ⟨hvalid, hparts⟩ := isValid_iff_written sampleText not_slip_sample
  exact ⟨hvalid.mpr ⟨_, _, _, _, hwritten⟩, (hparts _ _ _ _ hwritten).2.2⟩

/-- **A slash.**  No host begins with one, though it would have no colon. -/
theorem rejects_slash : ¬ ∀ text, (empty.parse (some text)).isValid = true ↔
    ∃ scheme tls host port, Written (fun _ => True) text scheme tls host port := by
  intro h
  have hvalid := (h (bytes "/a")).mpr ⟨.UNSPECIFIED, false, bytes "/a", 3333, [], bytes "/a", rfl,
    .inl ⟨rfl, by decide, rfl, rfl⟩, by decide, .inl ⟨by decide, fun _ _ => trivial,
      .inl ⟨rfl, rfl⟩⟩⟩
  revert hvalid
  decide

end Url

end XLArig
