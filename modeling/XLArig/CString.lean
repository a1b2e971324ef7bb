import Mathlib

/-!
# XLArig.CString

Nullable strings: a `const char *` and the `String` of `base/tools`, which is
either null or owns its bytes.
-/

namespace XLArig

/-- A null pointer or the bytes before the terminator. -/
abbrev CString := Option (List UInt8)

/-- The bytes of a literal. -/
def bytes (s : String) : List UInt8 := s.toUTF8.data.toList

namespace CString

/-- `String::size`. -/
def size : CString → Nat
  | some s => s.length
  | none => 0

/-- `String::isEmpty`. -/
def isEmpty (s : CString) : Bool := s.size == 0

/-- The C locale's `tolower`. -/
def tolower (c : UInt8) : UInt8 := if 0x41 ≤ c ∧ c ≤ 0x5A then c + 0x20 else c

/-- `strcasecmp(a, b) == 0`. -/
def sameIgnoringCase (a b : List UInt8) : Bool := a.map tolower == b.map tolower

/-- The text `snprintf` puts in a buffer of `n` bytes, before the terminator, and
what it returns: the length of the whole text, whether it fits or not. -/
def snprintf (n : Nat) (text : List UInt8) : List UInt8 × Nat := (text.take (n - 1), text.length)

/-- What `%s` prints. -/
def printed (s : CString) : List UInt8 := s.getD (bytes "(null)")

end CString

/-- What `%d` and its kin print. -/
def decimal (n : Int) : List UInt8 :=
  (if n < 0 then bytes "-" else []) ++ (Nat.toDigits 10 n.natAbs).map fun c => c.toNat.toUInt8

end XLArig
