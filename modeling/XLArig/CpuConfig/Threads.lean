import XLArig.CpuThreads
import XLArig.OrdMap

/-!
# XLArig.CpuConfig.Threads

`backend/common/Threads`: the profiles of the configuration, the algorithms that are switched
off, and the aliases, which give an algorithm the profile of another name.
-/

namespace XLArig

namespace Json

def isArray : Json → Bool
  | array _ => true
  | _ => false

end Json

/-- The order of the identifiers. -/
def Algorithm.before (a b : Algorithm) : Bool := decide (a.ctorIdx < b.ctorIdx)

instance : IsTrans Algorithm fun a b => a.before b = true where
  trans a b c hab hbc := by
    simp only [Algorithm.before, decide_eq_true_iff] at *
    omega

namespace Cpu

/-- `String::operator<`: an empty string is before none and after none. -/
def before (a b : List UInt8) : Bool := !a.isEmpty && !b.isEmpty && decide (a < b)

instance : IsTrans (List UInt8) fun a b => before a b = true where
  trans a b c hab hbc := by
    simp only [before, Bool.and_eq_true, decide_eq_true_iff] at *
    exact ⟨⟨hab.1.1, hbc.1.2⟩, List.lt_trans hab.2 hbc.2⟩

/-- `Threads<CpuThreads>`. -/
structure Threads where
  aliases : OrdMap Algorithm (List UInt8) Algorithm.before
  profiles : OrdMap (List UInt8) CpuThreads before
  disabled : OrdMap Algorithm Unit Algorithm.before

namespace Threads

def empty : Threads := ⟨.empty, .empty, .empty⟩

def has (t : Threads) (profile : List UInt8) : Bool := t.profiles.has profile

def isDisabled (t : Threads) (a : Algorithm) : Bool := t.disabled.has a

def isEmpty (t : Threads) : Bool := t.profiles.isEmpty

def disable (t : Threads) (a : Algorithm) : Threads := { t with disabled := t.disabled.insert a () }

def setAlias (t : Threads) (a : Algorithm) (profile : List UInt8) : Threads :=
  { t with aliases := t.aliases.assign a profile }

/-- `move`: how many threads there are, and the profiles with the one that is not empty. -/
def move (t : Threads) (profile : List UInt8) (threads : CpuThreads) : Nat × Threads :=
  if t.has profile then (0, t)
  else
    (threads.count,
      if threads.isEmpty then t else { t with profiles := t.profiles.insert profile threads })

variable [Features]

def isExist (t : Threads) (a : Algorithm) : Bool :=
  t.isDisabled a || t.aliases.has a || t.has a.shortName

/-- The part of a name before its first slash, as `split` finds it. -/
def base (name : List UInt8) : List UInt8 := ((name.splitOn 0x2F).filter (· ≠ [])).headD []

/-- `profileName`, not strict. -/
def profileName (t : Threads) (a : Algorithm) : CString :=
  if t.isDisabled a then none
  else
    let name := a.shortName
    if t.has name then some name
    else
      match t.aliases.find? a with
      | some profile => some profile
      | none =>
          if 0x2F ∈ name ∧ t.has (base name) then some (base name)
          else if name = bytes "panthera" ∧ t.has (bytes "rx") then some (bytes "rx")
          else if t.has (bytes "*") then some (bytes "*")
          else none

/-- `get`. -/
def get (t : Threads) (a : Algorithm) : CpuThreads :=
  ((t.profileName a).bind t.profiles.find?).getD .empty

/-! ## Reading -/

/-- The first pass takes the profiles. -/
def readProfile (t : Threads) (member : List UInt8 × Json) : Threads :=
  if member.2.isArray || member.2.isObject then
    let threads := CpuThreads.ofJSON member.2
    if threads.isEmpty then t else (t.move (Json.cstr member.1) threads).2
  else t

/-- The second takes the rest; an alias needs its profile. -/
def readMark (t : Threads) (member : List UInt8 × Json) : Threads :=
  if member.2.isArray || member.2.isObject then t
  else
    let algo := Algorithm.parse (some (Json.cstr member.1))
    if !algo.isValid then t
    else
      match member.2 with
      | .bool false => t.disable algo
      | .string s =>
          if t.has (Json.cstr s) then { t with aliases := t.aliases.insert algo (Json.cstr s) }
          else t.disable algo
      | _ => t

/-- `read`, of the members of an object. -/
def read (t : Threads) (members : List (List UInt8 × Json)) : Threads :=
  members.foldl readMark (members.foldl readProfile t)

/-! ## Writing -/

omit [Features] in
/-- The members for the profiles. -/
def profileMembers (t : Threads) : List (List UInt8 × Json) :=
  t.profiles.entries.map fun x => (x.1, x.2.toJSON)

def disabledMembers (t : Threads) : List (List UInt8 × Json) :=
  t.disabled.entries.map fun x => (x.1.shortName, .bool false)

def aliasMembers (t : Threads) : List (List UInt8 × Json) :=
  t.aliases.entries.map fun x => (x.1.shortName, .string x.2)

/-- `toJSON`: what is added to the object. -/
def toJSON (t : Threads) : List (List UInt8 × Json) :=
  t.profileMembers ++ t.disabledMembers ++ t.aliasMembers

end Threads

end Cpu

end XLArig
