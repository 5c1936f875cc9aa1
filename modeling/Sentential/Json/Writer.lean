import Sentential.Json

/-!
# Written JSON

The compact form: no blanks, fields in their order. Of the characters of a string only the quote,
the backslash and the control characters below the blank are escaped.
-/

namespace Sentential.Json

def hexDigit (n : Nat) : Char := Nat.digitChar n

def escape (c : Char) : List Char :=
  match c with
  | '"' => ['\\', '"']
  | '\\' => ['\\', '\\']
  | '\x08' => ['\\', 'b']
  | '\t' => ['\\', 't']
  | '\n' => ['\\', 'n']
  | '\x0c' => ['\\', 'f']
  | '\r' => ['\\', 'r']
  | c =>
    if c.toNat < 32 then ['\\', 'u', '0', '0', hexDigit (c.toNat / 16), hexDigit (c.toNat % 16)]
    else [c]

def quoteOn (out : String) (s : String) : String :=
  (s.toList.foldl (fun out c => (escape c).foldl String.push out) (out.push '"')).push '"'

def numeralOn (out : String) (n : Numeral) : String :=
  let out := if n.negative then out.push '-' else out
  let out := n.whole.foldl String.push out
  let out := if n.fraction.isEmpty then out else n.fraction.foldl String.push (out.push '.')
  match n.exponent with
  | none => out
  | some e => out.push 'e' ++ toString e

mutual

/-- Writes a value behind `out`. A string that is no text is left empty. -/
def writeOn (out : String) : Json → String
  | .null => out ++ "null"
  | .bool true => out ++ "true"
  | .bool false => out ++ "false"
  | .number n => numeralOn out n
  | .string s => quoteOn out (s.getD "")
  | .array items => (writeItemsOn (out.push '[') items).push ']'
  | .object fields => (writeFieldsOn (out.push '\x7b') fields).push '\x7d'

def writeItemsOn (out : String) : List Json → String
  | [] => out
  | [item] => writeOn out item
  | item :: items => writeItemsOn ((writeOn out item).push ',') items

def writeFieldsOn (out : String) : List (Option String × Json) → String
  | [] => out
  | [(key, value)] => writeOn ((quoteOn out (key.getD "")).push ':') value
  | (key, value) :: fields =>
    writeFieldsOn ((writeOn ((quoteOn out (key.getD "")).push ':') value).push ',') fields

end

def write (value : Json) : String := writeOn "" value

end Sentential.Json
