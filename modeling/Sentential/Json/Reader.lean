import Sentential.Json

/-!
# Read JSON

Reads the value that a text begins with and returns the text behind it. Each leaf (blanks, numbers,
strings) is one function; arrays and objects recurse with a bound that the length of the text gives,
since no two steps go by without a character read.
-/

namespace Sentential.Json

def skipBlanks (text : List Char) : List Char :=
  text.dropWhile fun c => c == ' ' || c == '\n' || c == '\t' || c == '\r'

def isSpent (text : List Char) : Bool := (skipBlanks text).isEmpty

def readDigits? (text : List Char) : Option (List Char × List Char) :=
  match text.takeWhile Char.isDigit with
  | [] => none
  | digits => some (digits, text.dropWhile Char.isDigit)

/-- A zero begins no longer number. -/
def readWhole? (text : List Char) : Option (List Char × List Char) :=
  match text with
  | '0' :: rest => some (['0'], rest)
  | _ => readDigits? text

def readFraction? (text : List Char) : Option (List Char × List Char) :=
  match text with
  | '.' :: rest => readDigits? rest
  | _ => some ([], text)

def readExponent? (text : List Char) : Option (Option Int × List Char) :=
  match text with
  | c :: rest =>
    if c == 'e' || c == 'E' then
      match rest with
      | '-' :: rest => (readDigits? rest).map fun (ds, rest) =>
        (some (-(Numeral.ofDigits ds : Int)), rest)
      | '+' :: rest => (readDigits? rest).map fun (ds, rest) =>
        (some (Numeral.ofDigits ds : Int), rest)
      | _ => (readDigits? rest).map fun (ds, rest) => (some (Numeral.ofDigits ds : Int), rest)
    else some (none, text)
  | [] => some (none, [])

def readNumeral? (text : List Char) : Option (Numeral × List Char) := do
  let (negative, text) :=
    match text with
    | '-' :: rest => (true, rest)
    | _ => (false, text)
  let (whole, text) ← readWhole? text
  let (fraction, text) ← readFraction? text
  let (exponent, text) ← readExponent? text
  return (⟨negative, whole, fraction, exponent⟩, text)

/-- What a string is written with: characters, and escaped halves of surrogate pairs. -/
inductive Unit16
  | char (c : Char)
  | high (n : Nat)
  | low (n : Nat)
  deriving DecidableEq, Repr

def hexValue? (c : Char) : Option Nat :=
  if c.isDigit then some (c.toNat - '0'.toNat)
  else if 'a' ≤ c && c ≤ 'f' then some (c.toNat - 'a'.toNat + 10)
  else if 'A' ≤ c && c ≤ 'F' then some (c.toNat - 'A'.toNat + 10)
  else none

def Unit16.ofNat (n : Nat) : Unit16 :=
  if 0xD800 ≤ n && n < 0xDC00 then .high n
  else if 0xDC00 ≤ n && n < 0xE000 then .low n
  else .char (Char.ofNat n)

def readEscape? : List Char → Option (Unit16 × List Char)
  | '"' :: rest => some (.char '"', rest)
  | '\\' :: rest => some (.char '\\', rest)
  | '/' :: rest => some (.char '/', rest)
  | 'b' :: rest => some (.char '\x08', rest)
  | 'f' :: rest => some (.char '\x0c', rest)
  | 'n' :: rest => some (.char '\n', rest)
  | 'r' :: rest => some (.char '\r', rest)
  | 't' :: rest => some (.char '\t', rest)
  | 'u' :: a :: b :: c :: d :: rest => do
    let n := (((← hexValue? a) * 16 + (← hexValue? b)) * 16 + (← hexValue? c)) * 16 +
      (← hexValue? d)
    return (.ofNat n, rest)
  | _ => none

/-- The units of a string up to its closing quote; `read` holds those before, the last one first. -/
def readUnits? : (bound : Nat) → (read : List Unit16) → List Char →
    Option (List Unit16 × List Char)
  | 0, _, _ => none
  | _ + 1, _, [] => none
  | _ + 1, read, '"' :: rest => some (read.reverse, rest)
  | bound + 1, read, '\\' :: rest =>
    match readEscape? rest with
    | none => none
    | some (unit, rest) => readUnits? bound (unit :: read) rest
  | bound + 1, read, c :: rest =>
    if c.toNat < 32 then none else readUnits? bound (.char c :: read) rest

def textOf? : (read : List Char) → List Unit16 → Option (List Char)
  | read, [] => some read.reverse
  | read, .char c :: units => textOf? (c :: read) units
  | read, .high h :: .low l :: units =>
    textOf? (Char.ofNat (0x10000 + (h - 0xD800) * 0x400 + (l - 0xDC00)) :: read) units
  | _, _ :: _ => none

def readString? (text : List Char) : Option (Option String × List Char) :=
  (readUnits? (text.length + 1) [] text).map fun (units, rest) =>
    ((textOf? [] units).map String.ofList, rest)

mutual

def readValue? : (bound : Nat) → List Char → Option (Json × List Char)
  | 0, _ => none
  | bound + 1, text =>
    match skipBlanks text with
    | 'n' :: 'u' :: 'l' :: 'l' :: rest => some (.null, rest)
    | 't' :: 'r' :: 'u' :: 'e' :: rest => some (.bool true, rest)
    | 'f' :: 'a' :: 'l' :: 's' :: 'e' :: rest => some (.bool false, rest)
    | '"' :: rest => (readString? rest).map fun (s, rest) => (.string s, rest)
    | '[' :: rest =>
      match skipBlanks rest with
      | ']' :: rest => some (.array [], rest)
      | _ => (readItems? bound rest).map fun (items, rest) => (.array items, rest)
    | '\x7b' :: rest =>
      match skipBlanks rest with
      | '\x7d' :: rest => some (.object [], rest)
      | _ => (readFields? bound rest).map fun (fields, rest) => (.object fields, rest)
    | text => (readNumeral? text).map fun (n, rest) => (.number n, rest)

def readItems? : (bound : Nat) → List Char → Option (List Json × List Char)
  | 0, _ => none
  | bound + 1, text =>
    match readValue? bound text with
    | none => none
    | some (item, rest) =>
      match skipBlanks rest with
      | ',' :: rest => (readItems? bound rest).map fun (items, rest) => (item :: items, rest)
      | ']' :: rest => some ([item], rest)
      | _ => none

def readFields? : (bound : Nat) → List Char → Option (List (Option String × Json) × List Char)
  | 0, _ => none
  | bound + 1, text =>
    match skipBlanks text with
    | '"' :: rest =>
      match readString? rest with
      | none => none
      | some (key, rest) =>
        match skipBlanks rest with
        | ':' :: rest =>
          match readValue? bound rest with
          | none => none
          | some (value, rest) =>
            match skipBlanks rest with
            | ',' :: rest =>
              (readFields? bound rest).map fun (fields, rest) => ((key, value) :: fields, rest)
            | '\x7d' :: rest => some ([(key, value)], rest)
            | _ => none
        | _ => none
    | _ => none

end

def readFirst? (text : List Char) : Option (Json × List Char) :=
  readValue? (2 * text.length + 2) text

def read? (text : String) : Option Json :=
  match readFirst? text.toList with
  | some (value, rest) => if isSpent rest then some value else none
  | none => none

end Sentential.Json
