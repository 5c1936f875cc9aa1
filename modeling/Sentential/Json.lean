import Sentential.Numeral

/-!
# JSON values

Values as they are written: the fields of an object keep their order and may repeat, and a number
keeps its digits.
-/

namespace Sentential

/-- A string is `none` when its escapes leave half of a surrogate pair, which is no text. -/
inductive Json
  | null
  | bool (value : Bool)
  | number (value : Numeral)
  | string (text : Option String)
  | array (items : List Json)
  | object (fields : List (Option String × Json))
  deriving Repr, Inhabited

namespace Json

def text (s : String) : Json := .string (some s)

def natural (n : Nat) : Json := .number (.ofNat n)

def record (fields : List (String × Json)) : Json := .object (fields.map fun f => (some f.1, f.2))

def string? : Json → Option String
  | .string s => s
  | _ => none

/-- Whether the value can be kept for later: all its strings are text, its numbers are finite, and
at most `room` arrays and objects lie within each other. -/
def isKeepable : (room : Nat) → Json → Bool
  | _, .null | _, .bool _ => true
  | _, .number n => n.isFinite
  | _, .string s => s.isSome
  | 0, .array _ | 0, .object _ => false
  | room + 1, .array items => items.all (isKeepable room)
  | room + 1, .object fields => fields.all fun f => f.1.isSome && isKeepable room f.2

end Json

end Sentential
