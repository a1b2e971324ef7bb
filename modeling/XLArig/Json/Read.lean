import XLArig.Json

/-!
# XLArig.Json.Read

How the members of a JSON value are read.

The getters of `base/io/json/Json` check what they read and fall back to a default.
`operator[]` and `GetString` check nothing: what rapidjson asserts is a `Crash` here, and
so are the other two things that the code around them takes for granted.
-/

namespace XLArig

/-- What must not happen: a member is read from a value that is no object or has none of
that name, a string from a value that is none, a null pointer is used as a host, or a
division by zero is made. -/
inductive Crash
  | notObject
  | missing (key : List UInt8)
  | notString
  | nullHost
  | divisionByZero
  deriving DecidableEq, Repr

/-- A computation that comes to its end. -/
def NoCrash {α : Type*} (x : Except Crash α) : Prop := ∃ a, x = .ok a

section

variable {α β : Type} {x : Except Crash α} {a : α} {crash : Crash}

@[simp] theorem noCrash_ok : NoCrash (.ok a) ↔ True := iff_true_intro ⟨a, rfl⟩

@[simp] theorem noCrash_pure : NoCrash (pure a : Except Crash α) ↔ True := noCrash_ok

@[simp] theorem noCrash_error : NoCrash (.error crash : Except Crash α) ↔ False :=
  iff_false_intro nofun

/-- What a computation crashes with. -/
def crash? : Except Crash α → Option Crash
  | .ok _ => none
  | .error crash => some crash

theorem eq_error (h : crash? x = some crash) : x = .error crash := by
  cases x with
  | ok a => contradiction
  | error c => rw [Option.some.inj h]

theorem toOption_eq_some : x.toOption = some a ↔ x = .ok a := by
  cases x <;> simp [Except.toOption]

theorem bind_ok {f : α → Except Crash β} {b : β} :
    x >>= f = .ok b ↔ ∃ a, x = .ok a ∧ f a = .ok b := by
  cases x <;> simp [bind, Except.bind]

theorem noCrash_bind {f : α → Except Crash β} :
    NoCrash (x >>= f) ↔ ∃ a, x = .ok a ∧ NoCrash (f a) := by
  cases x <;> simp [bind, Except.bind]

/-- Whatever a computation comes to satisfies `P`. -/
def Yields (P : α → Prop) (x : Except Crash α) : Prop := ∀ a, x = .ok a → P a

variable {P : α → Prop}

theorem yields_ok (h : P a) : Yields P (.ok a) := by
  rintro _ ⟨⟩
  exact h

theorem yields_error : Yields P (.error crash) := nofun

theorem yields_bind {P : β → Prop} {f : α → Except Crash β}
    (h : ∀ a, x = .ok a → Yields P (f a)) : Yields P (x >>= f) := by
  intro b hb
  obtain ⟨a, ha, hf⟩ := bind_ok.mp hb
  exact h a ha b hf

end

namespace Json

def isObject : Json → Bool
  | object _ => true
  | _ => false

/-- `FindMember`: the first member of that name. -/
def findMember (members : List (List UInt8 × Json)) (key : List UInt8) : Option Json :=
  (members.find? fun x => x.1 == key).map Prod.snd

/-- `Json::getValue`. -/
def getValue (obj : Json) (key : List UInt8) : Json :=
  match obj with
  | object members => (findMember members key).getD null
  | _ => null

def hasMember (obj : Json) (key : List UInt8) : Bool :=
  match obj with
  | object members => (findMember members key).isSome
  | _ => false

/-- A string of rapidjson as a `const char *`. -/
def cstr (s : List UInt8) : List UInt8 := s.takeWhile (· != 0)

/-- `Json::getString`. -/
def getString (obj : Json) (key : List UInt8) : CString :=
  match obj.getValue key with
  | string s => some (cstr s)
  | _ => none

/-- `Json::getObject`. -/
def getObject (obj : Json) (key : List UInt8) : Json :=
  match obj.getValue key with
  | object members => object members
  | _ => null

/-- `IsInt64` and `GetInt64`. -/
def int64? : Json → Option Int
  | int n => if -2 ^ 63 ≤ n ∧ n < 2 ^ 63 then some n else none
  | _ => none

/-- `Json::getInt64`. -/
def getInt64 (obj : Json) (key : List UInt8) : Int := ((obj.getValue key).int64?).getD 0

/-- `Json::getUint64`. -/
def getUint64 (obj : Json) (key : List UInt8) : UInt64 :=
  match obj.getValue key with
  | int n => if 0 ≤ n ∧ n < 2 ^ 64 then .ofNat n.toNat else 0
  | _ => 0

/-- `operator[]`. -/
def member (obj : Json) (key : List UInt8) : Except Crash Json :=
  match obj with
  | object members =>
      match findMember members key with
      | some value => .ok value
      | none => .error (.missing key)
  | _ => .error .notObject

/-- `GetString`. -/
def asString : Json → Except Crash (List UInt8)
  | string s => .ok (cstr s)
  | _ => .error .notString

/-! ## Reads that do not crash -/

variable {obj value : Json} {key s : List UInt8}

/-- What is no object has no members. -/
theorem getValue_of_not_object (h : obj.isObject = false) (key : List UInt8) :
    obj.getValue key = null := by
  cases obj with
  | object members => contradiction
  | _ => rfl

theorem member_ok : obj.member key = .ok value ↔
    obj.hasMember key = true ∧ obj.getValue key = value := by
  cases obj with
  | object members => cases h : findMember members key <;> simp [member, hasMember, getValue, h]
  | _ => simp [member, hasMember]

/-- An unchecked read is fine just when there is such a member. -/
theorem noCrash_member {β : Type} {f : Json → Except Crash β} :
    NoCrash (obj.member key >>= f) ↔ obj.hasMember key = true ∧ NoCrash (f (obj.getValue key)) := by
  rw [noCrash_bind]
  simp only [member_ok]
  exact ⟨fun ⟨_, ⟨hhas, heq⟩, hf⟩ => ⟨hhas, heq ▸ hf⟩, fun ⟨hhas, hf⟩ => ⟨_, ⟨hhas, rfl⟩, hf⟩⟩

/-- An unchecked read of a string is fine just when the checked one finds it. -/
theorem asString_ok : (obj.member key).bind asString = .ok s ↔ obj.getString key = some s := by
  cases obj with
  | object members =>
      cases h : findMember members key with
      | none => simp [member, getString, getValue, h, Except.bind]
      | some value => cases value <;> simp [member, getString, getValue, h, Except.bind, asString]
  | _ => simp [member, getString, getValue, Except.bind]

theorem noCrash_asString {β : Type} {f : List UInt8 → Except Crash β} :
    NoCrash ((obj.member key).bind asString >>= f) ↔
      ∃ s, obj.getString key = some s ∧ NoCrash (f s) := by
  rw [noCrash_bind]
  simp only [asString_ok]

end Json

end XLArig
