import XLArig.CString

/-!
# XLArig.Json

JSON values as rapidjson keeps them, and the text its `Writer` gives them.
-/

namespace XLArig

/-- A `rapidjson::Value`.  An object keeps its members in order, and a name may occur
twice; a number that is no integer is its text. -/
inductive Json
  | null
  | bool (b : Bool)
  | int (n : Int)
  | double (text : List UInt8)
  | string (s : List UInt8)
  | array (elements : List Json)
  | object (members : List (List UInt8 × Json))

namespace Json

/-! ## Writing -/

/-- `hexDigits` of the writer. -/
def hexDigit (n : UInt8) : UInt8 := if n < 10 then 0x30 + n else 0x37 + n

/-- How the writer puts one byte of a string. -/
def escape (c : UInt8) : List UInt8 :=
  match c.toNat with
  | 0x08 => bytes "\\b"
  | 0x09 => bytes "\\t"
  | 0x0A => bytes "\\n"
  | 0x0C => bytes "\\f"
  | 0x0D => bytes "\\r"
  | 0x22 => bytes "\\\""
  | 0x5C => bytes "\\\\"
  | n => if n < 0x20 then bytes "\\u00" ++ [hexDigit (c >>> 4), hexDigit (c &&& 0xF)] else [c]

def writeString (s : List UInt8) : List UInt8 := bytes "\"" ++ s.flatMap escape ++ bytes "\""

mutual

/-- `Value::Accept` with a `Writer`. -/
def write : Json → List UInt8
  | null => bytes "null"
  | bool b => if b then bytes "true" else bytes "false"
  | int n => decimal n
  | double text => text
  | string s => writeString s
  | array elements => bytes "[" ++ writeElements elements ++ bytes "]"
  | object members => bytes "\x7b" ++ writeMembers members ++ bytes "\x7d"

def writeElements : List Json → List UInt8
  | [] => []
  | [x] => write x
  | x :: xs => write x ++ bytes "," ++ writeElements xs

def writeMembers : List (List UInt8 × Json) → List UInt8
  | [] => []
  | [(name, x)] => writeString name ++ bytes ":" ++ write x
  | (name, x) :: xs => writeString name ++ bytes ":" ++ write x ++ bytes "," ++ writeMembers xs

end

/-! ## Values of the program -/

/-- `String::toJSON`. -/
def ofCString : CString → Json
  | none => null
  | some s => string s

/-- `JsonRequest::create`. -/
def request (id : Int) (method : List UInt8) (params : Json) : Json :=
  object [(bytes "id", int id), (bytes "jsonrpc", string (bytes "2.0")),
    (bytes "method", string method), (bytes "params", params)]

end Json

end XLArig
