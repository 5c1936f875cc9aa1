import Sentential.Binary64

/-!
# Numerals

Numbers as they are written, since some readers tell `4` from `4.0` and `4e0`, and what becomes of
them in double precision: a significand of 64 bits times a power of ten.
-/

namespace Sentential

/-- The fraction is empty where there is no point. -/
structure Numeral where
  negative : Bool
  whole : List Char
  fraction : List Char
  exponent : Option Int
  deriving DecidableEq, Repr

namespace Numeral

def digitValue (d : Char) : Nat := d.toNat - '0'.toNat

def ofDigits (digits : List Char) : Nat := digits.foldl (fun n d => 10 * n + digitValue d) 0

def ofNat (n : Nat) : Numeral := ⟨false, Nat.toDigits 10 n, [], none⟩

def natural? (n : Numeral) : Option Nat :=
  if !n.negative && n.fraction.isEmpty && n.exponent.isNone then some (ofDigits n.whole) else none

/-- Appends digits to a number until the next one would take it beyond 64 bits, and returns the
digits from there on. -/
def appendDigits (n : Nat) : List Char → Nat × List Char
  | [] => (n, [])
  | d :: digits =>
    if 10 * n + digitValue d < UInt64.size then appendDigits (10 * n + digitValue d) digits
    else (n, d :: digits)

/-- The significand and the power of ten. Digits that find no room in the significand are dropped;
those of the whole part raise the power, so that the number keeps its size. -/
def scientific (n : Numeral) : Nat × Int :=
  let (whole, raised) := appendDigits 0 n.whole
  let (significand, dropped) := appendDigits whole n.fraction
  (significand, n.exponent.getD 0 + raised.length + dropped.length - n.fraction.length)

/-- Whether the number is finite in double precision. Beyond `10 ^ 308` no power of ten is finite,
so such a power is not worked out. -/
def isFinite (n : Numeral) : Bool :=
  let (significand, power) := n.scientific
  significand == 0 || power ≤ 308 &&
    Binary64.isFinite (Binary64.multiply significand (Nat.pow 10 power.toNat))

end Numeral

end Sentential
